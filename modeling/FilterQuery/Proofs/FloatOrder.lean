import Mathlib.Algebra.Order.Group.Int
import Mathlib.Data.Prod.Lex
import Mathlib.Order.Compare

namespace FilterQuery.Binary64

open Float.Model
open Float.Model.UnpackedFloat (Sign)

-- Infinities are outermost. Between them the exponent decides before the mantissa does, turned round below zero.
def place? : UnpackedFloat → Option (ℤ ×ₗ ℤ ×ₗ ℤ)
  | .notANumber => none
  | .infinity .negative => some (toLex (-2, toLex (0, 0)))
  | .finite .negative m e _ => some (toLex (-1, toLex (-e, -m)))
  | .zero _ => some (toLex (0, toLex (0, 0)))
  | .finite .positive m e _ => some (toLex (1, toLex (e, m)))
  | .infinity .positive => some (toLex (2, toLex (0, 0)))

theorem compare_finite_lt (e e' : ℤ) (m m' : ℕ) :
    (compare e e').then (compare m m') = .lt ↔ e < e' ∨ e = e' ∧ m < m' := by
  rw [Ordering.then_eq_lt, compare_lt_iff_lt, compare_lt_iff_lt, compare_eq_iff_eq]

theorem compare_finite_gt (e e' : ℤ) (m m' : ℕ) :
    (compare e e').then (compare m m') = .gt ↔ e' < e ∨ e = e' ∧ m' < m := by
  rw [Ordering.then_eq_gt, compare_gt_iff_gt, compare_gt_iff_gt, compare_eq_iff_eq]

theorem unpacked_lt_iff (a b : UnpackedFloat) : a.lt b = true ↔ ∃ p ∈ place? a, ∃ q ∈ place? b, p < q := by
  have signs : compare Sign.negative Sign.positive = .lt := rfl
  have compared : a.lt b = true ↔ a.compare b = some .lt := beq_iff_eq
  rw [compared]
  rcases a with ⟨_ | _⟩ | _ | _ | ⟨_ | _, m, e, _⟩ <;> rcases b with ⟨_ | _⟩ | _ | _ | ⟨_ | _, m', e', _⟩ <;>
    dsimp only [UnpackedFloat.compare, place?] <;>
    simp [Prod.Lex.lt_iff, compare_finite_lt, Ordering.swap_eq_lt, compare_finite_gt, signs]

theorem lt_iff (x y : Float) :
    x < y ↔ ∃ p ∈ place? x.toModel.unpack, ∃ q ∈ place? y.toModel.unpack, p < q :=
  decide_eq_true_iff.trans (unpacked_lt_iff _ _)

variable {x y z : Float}

theorem not_lt_self (x : Float) : ¬ x < x := by
  intro below
  obtain ⟨p, here, q, here', ascending⟩ := (lt_iff x x).mp below
  cases Option.mem_unique here here'
  exact lt_irrefl p ascending

theorem lt_trans (below : x < y) (above : y < z) : x < z := by
  obtain ⟨p, first, q, second, ascending⟩ := (lt_iff x y).mp below
  obtain ⟨q', second', r, third, ascending'⟩ := (lt_iff y z).mp above
  cases Option.mem_unique second second'
  exact (lt_iff x z).mpr ⟨p, first, r, third, ascending.trans ascending'⟩

-- None of the doubles is above it. What is no number is above none and below none.
structure Greatest (x : Float) (xs : List Float) : Prop where
  among : x ∈ xs
  bound : ∀ y ∈ xs, ¬ x < y

theorem Greatest.perm {xs ys : List Float} (greatest : Greatest x xs) (same : xs.Perm ys) : Greatest x ys where
  among := same.mem_iff.mp greatest.among
  bound y member := greatest.bound y (same.mem_iff.mpr member)

def larger (most x : Float) : Float := if most < x then x else most

theorem greatest_singleton (x : Float) : Greatest x [x] where
  among := List.mem_singleton.mpr rfl
  bound _ same := List.mem_singleton.mp same ▸ not_lt_self x

theorem Greatest.larger {most : Float} {xs : List Float} (greatest : Greatest most xs) (x : Float) :
    Greatest (larger most x) (xs ++ [x]) := by
  unfold Binary64.larger
  split
  · rename_i above
    refine ⟨by simp, fun y member => ?_⟩
    rcases List.mem_append.mp member with seen | last
    · exact fun higher => greatest.bound y seen (lt_trans above higher)
    · exact List.mem_singleton.mp last ▸ not_lt_self x
  · rename_i above
    refine ⟨List.mem_append_left _ greatest.among, fun y member => ?_⟩
    rcases List.mem_append.mp member with seen | last
    · exact greatest.bound y seen
    · exact List.mem_singleton.mp last ▸ above

theorem Greatest.foldl_larger {most : Float} {seen : List Float} (greatest : Greatest most seen) (xs : List Float) :
    Greatest (xs.foldl Binary64.larger most) (seen ++ xs) := by
  induction xs generalizing most seen with
  | nil => rwa [List.append_nil]
  | cons x rest ih =>
    rw [List.append_cons]
    exact ih (greatest.larger x)

end FilterQuery.Binary64
