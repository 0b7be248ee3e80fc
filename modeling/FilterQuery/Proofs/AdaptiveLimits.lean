import FilterQuery.Complexity.Admission
import Mathlib.Algebra.Order.Field.Rat

namespace FilterQuery

namespace Verdict

-- Accepted, accepted with a warning, rejected.
def severity : Verdict → Nat
  | accept => 0
  | warn => 1
  | reject => 2

instance : LE Verdict := ⟨fun v w => v.severity ≤ w.severity⟩

theorem accept_le (v : Verdict) : accept ≤ v := Nat.zero_le v.severity

theorem le_reject (v : Verdict) : v ≤ reject := by
  show v.severity ≤ 2
  cases v <;> decide

end Verdict

section Clamp

variable {α : Type} [LinearOrder α] {least greatest x y : α}

theorem clampBetween_eq (bounds : least ≤ greatest) : clampBetween least greatest x = max least (min greatest x) := by
  unfold clampBetween
  by_cases below : x < least
  · rw [if_pos below, max_eq_left (min_le_of_right_le below.le)]
  · rw [if_neg below]
    by_cases above : greatest < x
    · rw [if_pos above, min_eq_left above.le, max_eq_right bounds]
    · rw [if_neg above, min_eq_right (not_lt.mp above), max_eq_right (not_lt.mp below)]

theorem clampBetween_mono (bounds : least ≤ greatest) (up : x ≤ y) :
    clampBetween least greatest x ≤ clampBetween least greatest y := by
  rw [clampBetween_eq bounds, clampBetween_eq bounds]
  exact max_le_max_left least (min_le_min_left greatest up)

theorem least_le_clampBetween (bounds : least ≤ greatest) : least ≤ clampBetween least greatest x := by
  rw [clampBetween_eq bounds]
  exact le_max_left least _

theorem clampBetween_below (bounds : least ≤ greatest) (below : x ≤ least) : clampBetween least greatest x = least := by
  rw [clampBetween_eq bounds, max_eq_left (min_le_of_right_le below)]

theorem clampBetween_above (bounds : least ≤ greatest) (above : greatest ≤ x) :
    clampBetween least greatest x = greatest := by
  rw [clampBetween_eq bounds, min_eq_left above, max_eq_right bounds]

end Clamp

namespace Admission

variable {base weight ratio factor factor' score score' : ℚ}

theorem limit_eq (base weight factor : ℚ) :
    limit base weight factor = max 0 (base * (1 - clampBetween 0 1 factor * weight)) := by
  unfold limit
  dsimp only
  by_cases left : 0 < base * (1 - clampBetween 0 1 factor * weight)
  · rw [if_pos left, max_eq_right left.le]
  · rw [if_neg left, max_eq_left (not_lt.mp left)]

theorem limit_nonneg (base weight factor : ℚ) : 0 ≤ limit base weight factor := by
  rw [limit_eq]
  exact le_max_left 0 _

theorem limit_antitone (hb : 0 ≤ base) (hw : 0 ≤ weight) (busier : factor ≤ factor') :
    limit base weight factor' ≤ limit base weight factor := by
  have taken : clampBetween 0 1 factor * weight ≤ clampBetween 0 1 factor' * weight :=
    mul_le_mul_of_nonneg_right (clampBetween_mono zero_le_one busier) hw
  rw [limit_eq, limit_eq]
  exact max_le_max_left 0 (mul_le_mul_of_nonneg_left (sub_le_sub_left taken 1) hb)

theorem limit_le_base (hb : 0 ≤ base) (hw : 0 ≤ weight) : limit base weight factor ≤ base := by
  have taken : 0 ≤ clampBetween 0 1 factor * weight :=
    mul_nonneg (least_le_clampBetween zero_le_one) hw
  rw [limit_eq]
  exact max_le hb (mul_le_of_le_one_right hb (sub_le_self 1 taken))

theorem limit_idle (hb : 0 ≤ base) : limit base weight 0 = base := by
  rw [limit_eq, clampBetween_below zero_le_one le_rfl, zero_mul, sub_zero, mul_one, max_eq_right hb]

theorem limit_below (idle : factor ≤ 0) : limit base weight factor = limit base weight 0 := by
  rw [limit_eq, limit_eq, clampBetween_below zero_le_one idle, clampBetween_below zero_le_one le_rfl]

theorem limit_above (saturated : 1 ≤ factor) : limit base weight factor = limit base weight 1 := by
  rw [limit_eq, limit_eq, clampBetween_above zero_le_one saturated, clampBetween_above zero_le_one le_rfl]

theorem verdict_accept_iff {limit : ℚ} : verdict ratio limit score = .accept ↔ score ≤ limit ∧ score ≤ ratio * limit := by
  unfold verdict
  by_cases beyond : limit < score
  · rw [if_pos beyond]
    exact iff_of_false nofun fun within => absurd within.1 (not_le.mpr beyond)
  · rw [if_neg beyond]
    by_cases close : ratio * limit < score
    · rw [if_pos close]
      exact iff_of_false nofun fun within => absurd within.2 (not_le.mpr close)
    · rw [if_neg close]
      exact iff_of_true rfl ⟨not_lt.mp beyond, not_lt.mp close⟩

-- With a ratio above one the two thresholds change places, and there is no warning at all.
theorem verdict_mono {limit limit' : ℚ} (hr : 0 ≤ ratio) (lower : limit' ≤ limit) (heavier : score ≤ score') :
    verdict ratio limit score ≤ verdict ratio limit' score' := by
  have warned : ratio * limit' ≤ ratio * limit := mul_le_mul_of_nonneg_left lower hr
  unfold verdict
  by_cases beyond' : limit' < score'
  · rw [if_pos beyond']
    exact Verdict.le_reject _
  · have beyond : ¬ limit < score := fun beyond => beyond' (lower.trans_lt (beyond.trans_le heavier))
    rw [if_neg beyond, if_neg beyond']
    by_cases close : ratio * limit < score
    · have close' : ratio * limit' < score' := warned.trans_lt (close.trans_le heavier)
      rw [if_pos close, if_pos close']
      exact Nat.le_refl _
    · rw [if_neg close]
      exact Verdict.accept_le _

-- What is promised of a limit that adapts to the load, and of the verdicts by it. An analysis holds its score between
-- 0 and 100.
structure Adapts (base weight ratio : ℚ) : Prop where
  verdicts : ∀ {factor factor' score score' : ℚ}, factor ≤ factor' → score ≤ score' →
    verdict ratio (limit base weight factor) score ≤ verdict ratio (limit base weight factor') score'
  analyses : ∀ {factor factor' raw raw' : ℚ}, factor ≤ factor' → raw ≤ raw' →
    verdict ratio (limit base weight factor) (clampBetween 0 100 raw) ≤
      verdict ratio (limit base weight factor') (clampBetween 0 100 raw')
  antitone : ∀ {factor factor' : ℚ}, factor ≤ factor' → limit base weight factor' ≤ limit base weight factor
  between : ∀ factor : ℚ, 0 ≤ limit base weight factor ∧ limit base weight factor ≤ base
  idle : limit base weight 0 = base
  below : ∀ {factor : ℚ}, factor ≤ 0 → limit base weight factor = limit base weight 0
  above : ∀ {factor : ℚ}, 1 ≤ factor → limit base weight factor = limit base weight 1
  silent : ∀ factor score : ℚ, verdict ratio (limit base weight factor) score = .accept ↔
    score ≤ limit base weight factor ∧ score ≤ ratio * limit base weight factor

theorem adapts (hb : 0 ≤ base) (hw : 0 ≤ weight) (hr : 0 ≤ ratio) : Adapts base weight ratio where
  verdicts busier heavier := verdict_mono hr (limit_antitone hb hw busier) heavier
  analyses busier heavier :=
    verdict_mono hr (limit_antitone hb hw busier) (clampBetween_mono (by decide) heavier)
  antitone := limit_antitone hb hw
  between factor := ⟨limit_nonneg base weight factor, limit_le_base hb hw⟩
  idle := limit_idle hb
  below := limit_below
  above := limit_above
  silent _ _ := verdict_accept_iff

end Admission

-- A check goes by this rule, which on exact numbers keeps what is promised.
theorem ComplexitySettings.decide_adapts {base weight ratio : ℚ} (hb : 0 ≤ base) (hw : 0 ≤ weight) (hr : 0 ≤ ratio) :
    Admission.Adapts base weight ratio ∧
      ∀ (s : ComplexitySettings) (analysis : Analysis) (load : Load),
        (s.decide analysis load).limit = Admission.limit s.baseLimit s.loadWeight load.factor ∧
        (s.decide analysis load).verdict =
          Admission.verdict s.warnRatio (s.decide analysis load).limit analysis.score :=
  ⟨Admission.adapts hb hw hr, fun _ _ _ => ⟨rfl, rfl⟩⟩

theorem standard_adapts : (0 : ℚ) ≤ 75 ∧ (0 : ℚ) ≤ 7 / 10 ∧ Admission.Adapts 75 (7 / 10) (7 / 10) := by
  have base : (0 : ℚ) ≤ 75 := by decide
  have share : (0 : ℚ) ≤ 7 / 10 := by decide +kernel
  exact ⟨base, share, (ComplexitySettings.decide_adapts base share share).1⟩

example : Admission.verdict (7 / 10) (Admission.limit (75 : ℚ) (7 / 10) (1 / 2)) 40 = .warn := by decide +kernel

end FilterQuery
