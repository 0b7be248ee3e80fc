import Mathlib.Algebra.Order.Field.Power
import Mathlib.Algebra.Order.Field.Rat
import Mathlib.Tactic.FieldSimp
import Mathlib.Tactic.Linarith
import Mathlib.Tactic.NormNum
import Mathlib.Tactic.Positivity
import Mathlib.Tactic.Ring
import FilterQuery.Number.Shortest

namespace FilterQuery

def Decimal10.value (d : Decimal10) : ℚ := d.digits * (10 : ℚ) ^ d.exponent

theorem zpow_toNat {b : ℚ} (base : b ≠ 0) (e : Int) : b ^ e * b ^ (-e).toNat = b ^ e.toNat := by
  rw [← zpow_natCast, ← zpow_natCast, ← zpow_add₀ base]
  exact congrArg (b ^ ·) (by omega)

namespace Shortest

variable {i : Interval} {k : Int} {d : Nat} {tie : Tie}

def Interval.lowest (i : Interval) : ℚ := i.low * (2 : ℚ) ^ i.exponent

def Interval.middle (i : Interval) : ℚ := i.value * (2 : ℚ) ^ i.exponent

def Interval.highest (i : Interval) : ℚ := i.high * (2 : ℚ) ^ i.exponent

-- The numbers that round to the double.
def Interval.Holds (i : Interval) (v : ℚ) : Prop :=
  if i.closed then i.lowest ≤ v ∧ v ≤ i.highest else i.lowest < v ∧ v < i.highest

theorem Interval.Holds.bounds {v : ℚ} (holds : i.Holds v) : i.lowest ≤ v ∧ v ≤ i.highest := by
  unfold Holds at holds
  split at holds
  · exact holds
  · exact ⟨holds.1.le, holds.2.le⟩

-- Two of the doubles next to each other share a bound, but not both count it.
theorem Interval.Holds.strict {v : ℚ} (holds : i.Holds v) (opened : i.closed = false) : i.lowest < v ∧ v < i.highest := by
  rwa [Holds, opened] at holds

-- The common denominator of the scaled numbers.
def unit (i : Interval) (k : Int) : ℚ := 10 ^ (-k).toNat * 2 ^ (-i.exponent).toNat

theorem unit_pos (i : Interval) (k : Int) : 0 < unit i k := by
  unfold unit
  positivity

theorem grid_scaled (i : Interval) (k : Int) (d : Nat) :
    ((d * (i.scaled k).step : Nat) : ℚ) = d * (10 : ℚ) ^ k * unit i k := by
  have tens := zpow_toNat (b := 10) (by norm_num) k
  simp only [Interval.scaled, unit, Nat.pow_eq]
  push_cast
  rw [← tens]
  ring

theorem bound_scaled (i : Interval) (k : Int) (n : Nat) :
    ((n * (Nat.pow 2 i.exponent.toNat * Nat.pow 10 (-k).toNat) : Nat) : ℚ) = n * (2 : ℚ) ^ i.exponent * unit i k := by
  have twos := zpow_toNat (b := 2) (by norm_num) i.exponent
  simp only [unit, Nat.pow_eq]
  push_cast
  rw [← twos]
  ring

theorem low_le_iff (i : Interval) (k : Int) (d : Nat) :
    (i.scaled k).low ≤ d * (i.scaled k).step ↔ i.lowest ≤ d * (10 : ℚ) ^ k := by
  rw [← Nat.cast_le (α := ℚ), grid_scaled, Interval.scaled, bound_scaled, mul_le_mul_iff_left₀ (unit_pos i k)]
  rfl

theorem le_high_iff (i : Interval) (k : Int) (d : Nat) :
    d * (i.scaled k).step ≤ (i.scaled k).high ↔ d * (10 : ℚ) ^ k ≤ i.highest := by
  rw [← Nat.cast_le (α := ℚ), grid_scaled, Interval.scaled, bound_scaled, mul_le_mul_iff_left₀ (unit_pos i k)]
  rfl

theorem low_lt_iff (i : Interval) (k : Int) (d : Nat) :
    (i.scaled k).low < d * (i.scaled k).step ↔ i.lowest < d * (10 : ℚ) ^ k := by
  rw [← Nat.cast_lt (α := ℚ), grid_scaled, Interval.scaled, bound_scaled, mul_lt_mul_iff_left₀ (unit_pos i k)]
  rfl

theorem lt_high_iff (i : Interval) (k : Int) (d : Nat) :
    d * (i.scaled k).step < (i.scaled k).high ↔ d * (10 : ℚ) ^ k < i.highest := by
  rw [← Nat.cast_lt (α := ℚ), grid_scaled, Interval.scaled, bound_scaled, mul_lt_mul_iff_left₀ (unit_pos i k)]
  rfl

theorem holds_iff (i : Interval) (k : Int) (d : Nat) :
    (i.scaled k).holds d = true ↔ i.Holds (d * (10 : ℚ) ^ k) := by
  have closed : (i.scaled k).closed = i.closed := rfl
  unfold Scaled.holds Interval.Holds
  rw [closed]
  cases i.closed
  · simp [low_lt_iff, lt_high_iff]
  · simp [low_le_iff, le_high_iff]

theorem pick_holds {s : Scaled} (picked : s.pick tie = some d) : s.holds d = true := by
  unfold Scaled.pick at picked
  dsimp only at picked
  split at picked
  next => cases picked
  next below above =>
    cases picked
    exact below
  next below above =>
    cases picked
    exact above
  next below above =>
    split at picked
    · cases picked
      exact below
    · split at picked
      · cases picked
        exact above
      · cases tie with
        | up =>
          cases picked
          exact above
        | toEven =>
          cases picked
          split
          · exact below
          · exact above

theorem pick_none {s : Scaled} (missed : s.pick tie = none) :
    s.holds (s.value / s.step) = false ∧ s.holds (s.value / s.step + 1) = false := by
  unfold Scaled.pick at missed
  dsimp only at missed
  split at missed
  next below above => exact ⟨below, above⟩
  next => cases missed
  next => cases missed
  next =>
    split at missed
    · cases missed
    · split at missed
      · cases missed
      · cases tie <;> cases missed

theorem Scaled.holds_of_between {s : Scaled} (low : s.low < d * s.step) (high : d * s.step < s.high) :
    s.holds d = true := by
  unfold holds
  cases s.closed
  · simp [low, high]
  · simp [low.le, high.le]

-- One of the two neighbours on a grid is within half a step.
theorem pick_some {s : Scaled} (positive : 0 < s.step) (below : s.step < 2 * (s.value - s.low))
    (above : s.step < 2 * (s.high - s.value)) : s.pick tie ≠ none := by
  intro missed
  obtain ⟨notBelow, notAbove⟩ := pick_none missed
  have split := Nat.div_add_mod s.value s.step
  have rest := Nat.mod_lt s.value positive
  by_cases near : 2 * (s.value % s.step) ≤ s.step
  · refine absurd (s.holds_of_between ?_ ?_) (Bool.eq_false_iff.mp notBelow)
    · rw [Nat.mul_comm]
      omega
    · rw [Nat.mul_comm]
      omega
  · refine absurd (s.holds_of_between ?_ ?_) (Bool.eq_false_iff.mp notAbove)
    · rw [Nat.add_mul, Nat.one_mul, Nat.mul_comm]
      omega
    · rw [Nat.add_mul, Nat.one_mul, Nat.mul_comm]
      omega

theorem digitsFrom_holds (i : Interval) (top : Int) {left count : Nat} (extra : Nat) (reached : extra < left)
    (found : (i.scaled (top - (count + extra : Nat) + 1)).pick tie ≠ none) :
    i.Holds (digitsFrom tie i top left count).value := by
  induction left generalizing count extra with
  | zero => cases reached
  | succ left ih =>
    rw [digitsFrom]
    split
    next d picked => exact (holds_iff ..).mp (pick_holds picked)
    next missed =>
      cases extra with
      | zero => exact absurd missed found
      | succ extra =>
        refine ih extra (Nat.lt_of_succ_lt_succ reached) ?_
        rwa [Nat.add_right_comm, Nat.add_assoc]

theorem middle_eq (i : Interval) :
    i.middle * (Nat.pow 2 (-i.exponent).toNat : Nat) = (i.value * Nat.pow 2 i.exponent.toNat : Nat) := by
  have twos := zpow_toNat (b := 2) (by norm_num) i.exponent
  simp only [Interval.middle, Nat.pow_eq]
  push_cast
  rw [← twos]
  ring

theorem pow_length_le {n : Nat} (positive : 0 < n) : 10 ^ ((Nat.toDigits 10 n).length - 1) ≤ n := by
  by_cases single : (Nat.toDigits 10 n).length = 1
  · rw [single]
    exact positive
  · have several : 1 < (Nat.toDigits 10 n).length := Nat.lt_of_le_of_ne Nat.length_toDigits_pos (Ne.symm single)
    refine Nat.not_lt.mp fun less => ?_
    have short := (Nat.length_toDigits_le_iff (b := 10) (by decide) (Nat.sub_pos_of_lt several)).mpr less
    omega

theorem lt_pow_length (n : Nat) : n < 10 ^ (Nat.toDigits 10 n).length :=
  (Nat.length_toDigits_le_iff (by decide) Nat.length_toDigits_pos).mp (Nat.le_refl _)

theorem leading_le {i : Interval} (positive : 0 < i.value) : (10 : ℚ) ^ leading i ≤ i.middle := by
  have middle := middle_eq i
  unfold leading
  dsimp only
  generalize denom : Nat.pow 2 (-i.exponent).toNat = denominator at middle ⊢
  generalize numer : i.value * Nat.pow 2 i.exponent.toNat = numerator at middle ⊢
  have denPos : 0 < denominator := denom ▸ Nat.pow_pos (by decide)
  have numPos : 0 < numerator := numer ▸ Nat.mul_pos positive (Nat.pow_pos (by decide))
  have denPos' : (0 : ℚ) < denominator := by exact_mod_cast denPos
  split
  case isTrue whole =>
    have quotient : 0 < numerator / denominator := Nat.div_pos whole denPos
    have digits := pow_length_le quotient
    have bound : 10 ^ ((Nat.toDigits 10 (numerator / denominator)).length - 1) * denominator ≤ numerator :=
      (Nat.mul_le_mul_right _ digits).trans (Nat.div_mul_le_self ..)
    have length := Nat.length_toDigits_pos (b := 10) (n := numerator / denominator)
    have exponent : ((Nat.toDigits 10 (numerator / denominator)).length : Int) - 1 =
        (((Nat.toDigits 10 (numerator / denominator)).length - 1 : Nat) : Int) := by omega
    rw [exponent, zpow_natCast, ← mul_le_mul_iff_left₀ denPos', middle]
    exact_mod_cast bound
  case isFalse part =>
    have shown : ∀ k : Nat, denominator ≤ numerator * 10 ^ k → (10 : ℚ) ^ (-(k : Int)) ≤ i.middle := by
      intro k bound
      have tens : (0 : ℚ) < 10 ^ k := by positivity
      have bound' : (denominator : ℚ) ≤ numerator * 10 ^ k := by exact_mod_cast bound
      rw [zpow_neg, zpow_natCast, ← mul_le_mul_iff_left₀ denPos', middle, inv_mul_le_iff₀ tens, mul_comm]
      exact bound'
    have length := Nat.length_toDigits_pos (b := 10) (n := (denominator - 1) / numerator)
    have digits := lt_pow_length ((denominator - 1) / numerator)
    have bound : denominator ≤ numerator * 10 ^ (Nat.toDigits 10 ((denominator - 1) / numerator)).length := by
      have less := (Nat.div_lt_iff_lt_mul numPos).mp digits
      rw [Nat.mul_comm]
      omega
    split
    case isTrue exact_ =>
      have exponent : -(((Nat.toDigits 10 ((denominator - 1) / numerator)).length : Int) - 1) =
          -(((Nat.toDigits 10 ((denominator - 1) / numerator)).length - 1 : Nat) : Int) := by omega
      rw [exponent]
      exact shown _ exact_
    case isFalse => exact shown _ bound

end Shortest

open Shortest

-- What the bits of a finite double can be.
structure Binary64.Canonical (m : Nat) (q : Int) : Prop where
  bounded : m < 2 * hiddenBit
  least : leastExponent ≤ q
  normal : hiddenBit ≤ m ∨ q = leastExponent

namespace Shortest

theorem step_lt {i : Interval} {k : Int} {margin : Nat} (small : (10 : ℚ) ^ k < margin * (2 : ℚ) ^ i.exponent) :
    (i.scaled k).step < margin * (Nat.pow 2 i.exponent.toNat * Nat.pow 10 (-k).toNat) := by
  have step := grid_scaled i k 1
  rw [Nat.one_mul, Nat.cast_one, one_mul] at step
  rw [← Nat.cast_lt (α := ℚ), step, bound_scaled]
  exact mul_lt_mul_of_pos_right small (unit_pos i k)

-- Sixteen places behind the leading one the grid is finer than the gap to the next double.
theorem grid_fine {m : Nat} {q : Int} (positive : 0 < m) {margin : Nat} (narrow : 4 * m < margin * 10 ^ 16) :
    (10 : ℚ) ^ (leading (interval m q) - 16) < margin * (2 : ℚ) ^ (interval m q).exponent := by
  have lead := leading_le (i := interval m q) (Nat.mul_pos (by decide) positive)
  have binary : (0 : ℚ) < (2 : ℚ) ^ (interval m q).exponent := by positivity
  have narrow' : (4 * m : ℚ) < margin * 10 ^ 16 := by exact_mod_cast narrow
  have middle : (interval m q).middle = 4 * m * (2 : ℚ) ^ (interval m q).exponent := by
    rw [Interval.middle, interval]
    push_cast
    rfl
  rw [zpow_sub₀ (by norm_num), div_lt_iff₀ (by positivity)]
  calc (10 : ℚ) ^ leading (interval m q) ≤ (interval m q).middle := lead
    _ = 4 * m * (2 : ℚ) ^ (interval m q).exponent := middle
    _ < margin * 10 ^ 16 * (2 : ℚ) ^ (interval m q).exponent := mul_lt_mul_of_pos_right narrow' binary
    _ = margin * (2 : ℚ) ^ (interval m q).exponent * 10 ^ (16 : Int) := by
      rw [mul_right_comm]
      norm_num

theorem shortest_holds (tie : Tie) {m : Nat} {q : Int} (canonical : Binary64.Canonical m q) (positive : 0 < m) :
    (interval m q).Holds (shortest tie m q).value := by
  have bounded := canonical.bounded
  unfold Binary64.hiddenBit at bounded
  refine digitsFrom_holds _ _ 16 (by decide) ?_
  have exponent : leading (interval m q) - ((1 + 16 : Nat) : Int) + 1 = leading (interval m q) - 16 := by omega
  rw [exponent]
  refine pick_some ?_ ?_ ?_
  · exact Nat.mul_pos (Nat.pow_pos (by decide)) (Nat.pow_pos (by decide))
  · show _ < 2 * ((interval m q).value * _ - (interval m q).low * _)
    rw [← Nat.sub_mul, ← Nat.mul_assoc]
    refine step_lt (grid_fine positive ?_)
    unfold interval
    dsimp only
    split
    case isTrue narrow =>
      obtain ⟨rfl, -⟩ := narrow
      decide
    case isFalse => omega
  · show _ < 2 * ((interval m q).high * _ - (interval m q).value * _)
    rw [← Nat.sub_mul, ← Nat.mul_assoc]
    refine step_lt (grid_fine positive ?_)
    unfold interval
    dsimp only
    omega

variable {m m' : Nat} {q q' : Int}

theorem interval_low (m : Nat) (q : Int) :
    m = Binary64.hiddenBit ∧ Binary64.leastExponent < q ∧ (interval m q).low = 4 * m - 1 ∨
      ¬ (m = Binary64.hiddenBit ∧ Binary64.leastExponent < q) ∧ (interval m q).low = 4 * m - 2 := by
  unfold interval
  dsimp only
  split
  case isTrue narrow => exact .inl ⟨narrow.1, narrow.2, rfl⟩
  case isFalse wide => exact .inr ⟨wide, rfl⟩

-- The upper bound of a double is not above the lower bound of any greater one; where they meet, one of the two
-- mantissas is odd.
theorem bounds_apart (canonical : Binary64.Canonical m q) (canonical' : Binary64.Canonical m' q')
    (greater : q < q' ∨ q = q' ∧ m < m') :
    4 * m + 2 ≤ (interval m' q').low * 2 ^ (q' - q).toNat ∧
      (4 * m + 2 = (interval m' q').low * 2 ^ (q' - q).toNat → m % 2 ≠ m' % 2) := by
  obtain ⟨bounded, least, normal⟩ := canonical
  obtain ⟨bounded', least', normal'⟩ := canonical'
  have lows := interval_low m' q'
  rcases greater with further | ⟨rfl, more⟩
  · have above : Binary64.hiddenBit ≤ m' := normal'.resolve_right (by omega)
    have inner : Binary64.leastExponent < q' := by omega
    have doubled : 2 * (interval m' q').low ≤ (interval m' q').low * 2 ^ (q' - q).toNat := by
      rw [Nat.mul_comm]
      refine Nat.mul_le_mul_left _ ?_
      exact Nat.le_trans (by decide) (Nat.pow_le_pow_right (n := 2) (by decide) (show 1 ≤ (q' - q).toNat by omega))
    unfold Binary64.hiddenBit at *
    omega
  · rw [Int.sub_self, Int.toNat_zero, Nat.pow_zero, Nat.mul_one]
    unfold Binary64.hiddenBit at *
    omega

theorem highest_le_lowest (canonical : Binary64.Canonical m q) (canonical' : Binary64.Canonical m' q')
    (greater : q < q' ∨ q = q' ∧ m < m') :
    (interval m q).highest ≤ (interval m' q').lowest ∧
      ((interval m q).highest = (interval m' q').lowest → m % 2 ≠ m' % 2) := by
  obtain ⟨below, apart⟩ := bounds_apart canonical canonical' greater
  have unit : (0 : ℚ) < (2 : ℚ) ^ (q - 2) := by positivity
  have high : (interval m q).highest = ((4 * m + 2 : Nat) : ℚ) * (2 : ℚ) ^ (q - 2) := rfl
  have low : (interval m' q').lowest = (((interval m' q').low * 2 ^ (q' - q).toNat : Nat) : ℚ) * (2 : ℚ) ^ (q - 2) := by
    have shifted : (2 : ℚ) ^ (q' - 2) = 2 ^ (q' - q).toNat * (2 : ℚ) ^ (q - 2) := by
      rw [← zpow_natCast, ← zpow_add₀ (by norm_num)]
      exact congrArg ((2 : ℚ) ^ ·) (by omega)
    show _ * (2 : ℚ) ^ (q' - 2) = _
    rw [shifted]
    push_cast
    ring
  rw [high, low, mul_le_mul_iff_left₀ unit, mul_left_inj' unit.ne', Nat.cast_le, Nat.cast_inj]
  exact ⟨below, apart⟩

theorem not_both (canonical : Binary64.Canonical m q) (canonical' : Binary64.Canonical m' q')
    (greater : q < q' ∨ q = q' ∧ m < m') {v : ℚ} (holds : (interval m q).Holds v) :
    ¬ (interval m' q').Holds v := by
  intro holds'
  obtain ⟨below, apart⟩ := highest_le_lowest canonical canonical' greater
  have upper := holds.bounds.2
  have lower := holds'.bounds.1
  have parity := apart (le_antisymm below (lower.trans upper))
  rcases Nat.mod_two_eq_zero_or_one m with even | odd
  · have opened : (interval m' q').closed = false := by simp [interval]; omega
    exact absurd ((holds'.strict opened).1.trans_le upper) (not_lt.mpr below)
  · have opened : (interval m q).closed = false := by simp [interval, odd]
    exact absurd (lower.trans_lt (holds.strict opened).2) (not_lt.mpr below)

theorem interval_unique (canonical : Binary64.Canonical m q) (canonical' : Binary64.Canonical m' q') {v : ℚ}
    (holds : (interval m q).Holds v) (holds' : (interval m' q').Holds v) : m = m' ∧ q = q' := by
  rcases lt_trichotomy q q' with less | rfl | greater
  · exact absurd holds' (not_both canonical canonical' (.inl less) holds)
  · rcases lt_trichotomy m m' with less | rfl | greater
    · exact absurd holds' (not_both canonical canonical' (.inr ⟨rfl, less⟩) holds)
    · exact ⟨rfl, rfl⟩
    · exact absurd holds (not_both canonical' canonical (.inr ⟨rfl, greater⟩) holds')
  · exact absurd holds (not_both canonical' canonical (.inl greater) holds')

theorem holds_positive (positive : 0 < m) {v : ℚ} (holds : (interval m q).Holds v) : 0 < v := by
  have low : 0 < (interval m q).low := by
    rcases interval_low m q with ⟨-, -, low⟩ | ⟨-, low⟩ <;> omega
  have lowest : 0 < (interval m q).lowest := mul_pos (by exact_mod_cast low) (by positivity)
  exact lowest.trans_le holds.bounds.1

end Shortest
end FilterQuery
