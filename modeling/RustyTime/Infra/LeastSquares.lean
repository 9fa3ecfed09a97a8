import Mathlib.Algebra.Order.BigOperators.Group.List
import Mathlib.Algebra.Order.Field.Basic
import Mathlib.Tactic.FieldSimp
import Mathlib.Tactic.Linarith
import Mathlib.Tactic.Ring

/-!
# Weighted least squares on a line

Points with weights `w`, abscissae `t` and ordinates `y`. When the points lie on a line, the
weighted mean of the ordinates is the line at the weighted mean of the abscissae, and the
covariance is the slope times the spread, whatever the weights.

* `mean_of_line`, `covariance_of_line` — what a fit reads off
* `sum_sub_line`, `covariance_sub_line` — what taking a line away from the ordinates changes
* `ssr_le_of_normal` — a line with uncorrelated residuals of mean 0 is optimal
* `ssr_le_of_balanced` — among the lines of one slope, the one with residuals of mean 0 is
* `le_spread` — two points a unit apart already spread
-/

namespace RustyTime.LeastSquares

variable {ι R : Type} [Field R] {w t y : ι → R} {points : List ι} {a b : R}

/-- The weighted mean of the abscissae. -/
def mean (w t : ι → R) (points : List ι) : R :=
  (points.map fun i => w i * t i).sum / (points.map w).sum

theorem sum_line (w t : ι → R) (points : List ι) (a b : R) :
    (points.map fun i => w i * (a + b * t i)).sum
      = a * (points.map w).sum + b * (points.map fun i => w i * t i).sum := by
  induction points with
  | nil => simp
  | cons i points ih =>
    simp only [List.map_cons, List.sum_cons, ih]
    ring

/-- The abscissae are centred about their mean. -/
theorem sum_centred (hw : (points.map w).sum ≠ 0) :
    (points.map fun i => w i * (t i - mean w t points)).sum = 0 := by
  have hline : (fun i => w i * (t i - mean w t points))
      = fun i => w i * (-mean w t points + 1 * t i) := by
    funext i
    ring
  rw [hline, sum_line, mean]
  field_simp
  ring

/-- The mean of a line is the line at the mean. -/
theorem mean_of_line (hw : (points.map w).sum ≠ 0) (hy : ∀ i ∈ points, y i = a + b * t i) :
    (points.map fun i => w i * y i).sum / (points.map w).sum = a + b * mean w t points := by
  have hline : points.map (fun i => w i * y i) = points.map fun i => w i * (a + b * t i) :=
    List.map_congr_left fun i hi => by rw [hy i hi]
  rw [hline, sum_line, mean]
  field_simp

/-- The covariance of a line is its slope times the spread. -/
theorem covariance_of_line (hw : (points.map w).sum ≠ 0) (hy : ∀ i ∈ points, y i = a + b * t i) :
    (points.map fun i => w i * (t i - mean w t points) * y i).sum
      = b * (points.map fun i =>
          w i * (t i - mean w t points) * (t i - mean w t points)).sum := by
  let t0 := mean w t points
  -- split the line into its value at the mean and the rest
  have hline : points.map (fun i => w i * (t i - t0) * y i)
      = points.map fun i => (w i * (t i - t0)) * ((a + b * t0) + b * (t i - t0)) :=
    List.map_congr_left fun i hi => by
      rw [hy i hi]
      ring
  have hcentred : (points.map fun i => w i * (t i - t0)).sum = 0 := sum_centred hw
  show (points.map fun i => w i * (t i - t0) * y i).sum = _
  rw [hline, sum_line (fun i => w i * (t i - t0)) (fun i => t i - t0), hcentred, mul_zero,
    zero_add]

/-- Taking a line away from the ordinates takes it away from their sum. -/
theorem sum_sub_line (w t y : ι → R) (points : List ι) (a b : R) :
    (points.map fun i => w i * (y i - (a + b * t i))).sum
      = (points.map fun i => w i * y i).sum
        - (a * (points.map w).sum + b * (points.map fun i => w i * t i).sum) := by
  induction points with
  | nil => simp
  | cons i points ih =>
    simp only [List.map_cons, List.sum_cons, ih]
    ring

/-- Of a line taken away, the covariance loses the slope times the spread. -/
theorem covariance_sub_line (hw : (points.map w).sum ≠ 0) (a b : R) :
    (points.map fun i => w i * (t i - mean w t points) * (y i - (a + b * t i))).sum
      = (points.map fun i => w i * (t i - mean w t points) * y i).sum
        - b * (points.map fun i =>
          w i * (t i - mean w t points) * (t i - mean w t points)).sum := by
  have hline := covariance_of_line (y := fun i => a + b * t i) hw fun i _ => rfl
  rw [← hline, sum_sub_line (fun i => w i * (t i - mean w t points)) t y, ← sum_line]

/-- The weighted sum of squared residuals about a line. -/
def ssr (w t y : ι → R) (points : List ι) (a b : R) : R :=
  (points.map fun i => w i * ((y i - (a + b * t i)) * (y i - (a + b * t i)))).sum

/-- From one line to another: the cross terms, and the square of their difference. -/
theorem ssr_expand (w t y : ι → R) (points : List ι) (a b a' b' : R) :
    ssr w t y points a' b' = ssr w t y points a b
      + 2 * ((a - a') * (points.map fun i => w i * (y i - (a + b * t i))).sum
        + (b - b') * (points.map fun i => w i * t i * (y i - (a + b * t i))).sum)
      + (points.map fun i =>
          w i * (((a - a') + (b - b') * t i) * ((a - a') + (b - b') * t i))).sum := by
  unfold ssr
  induction points with
  | nil => simp
  | cons i points ih =>
    simp only [List.map_cons, List.sum_cons, ih]
    ring

variable [LinearOrder R] [IsStrictOrderedRing R]

theorem sum_squares_nonneg (hw : ∀ i ∈ points, 0 ≤ w i) (e : ι → R) :
    0 ≤ (points.map fun i => w i * (e i * e i)).sum := by
  refine List.sum_nonneg fun x hx => ?_
  obtain ⟨i, hi, rfl⟩ := List.mem_map.mp hx
  exact mul_nonneg (hw i hi) (mul_self_nonneg _)

/-- **The normal equations are enough**: a line whose residuals have mean 0 and no covariance with
the abscissae minimises the sum of squares. -/
theorem ssr_le_of_normal (hw : ∀ i ∈ points, 0 ≤ w i)
    (hmean : (points.map fun i => w i * (y i - (a + b * t i))).sum = 0)
    (hcov : (points.map fun i => w i * t i * (y i - (a + b * t i))).sum = 0) (a' b' : R) :
    ssr w t y points a b ≤ ssr w t y points a' b' := by
  have hnonneg := sum_squares_nonneg hw fun i => (a - a') + (b - b') * t i
  rw [ssr_expand w t y points a b a' b', hmean, hcov]
  linarith

/-- With the slope held fixed, the first normal equation is enough. -/
theorem ssr_le_of_balanced (hw : ∀ i ∈ points, 0 ≤ w i)
    (hmean : (points.map fun i => w i * (y i - (a + b * t i))).sum = 0) (a' : R) :
    ssr w t y points a b ≤ ssr w t y points a' b := by
  have hnonneg := sum_squares_nonneg hw fun i => (a - a') + (b - b) * t i
  rw [ssr_expand w t y points a b a' b, hmean, sub_self]
  rw [sub_self] at hnonneg
  linarith

/-- Two points a unit apart spread by at least half of the weight each has. -/
theorem le_spread {i j : ι} {rest : List ι} {c : R} (hc : 0 ≤ c)
    (hw : ∀ k ∈ i :: j :: rest, c ≤ w k) (hij : 1 ≤ |t j - t i|) (m : R) :
    c / 2 ≤ ((i :: j :: rest).map fun k => w k * (t k - m) * (t k - m)).sum := by
  have hi : c ≤ w i := hw i List.mem_cons_self
  have hj : c ≤ w j := hw j (List.mem_cons_of_mem _ List.mem_cons_self)
  have hterm : ∀ k, c ≤ w k → c * ((t k - m) * (t k - m)) ≤ w k * (t k - m) * (t k - m) := by
    intro k hk
    rw [mul_assoc]
    exact mul_le_mul_of_nonneg_right hk (mul_self_nonneg _)
  have hrest : 0 ≤ (rest.map fun k => w k * (t k - m) * (t k - m)).sum := by
    refine List.sum_nonneg ?_
    intro x hx
    obtain ⟨k, hk, rfl⟩ := List.mem_map.mp hx
    have hck := hw k (List.mem_cons_of_mem _ (List.mem_cons_of_mem _ hk))
    exact (mul_nonneg hc (mul_self_nonneg _)).trans (hterm k hck)
  -- the sum of two squares is at least half the square of the difference
  have hapart : 1 ≤ (t j - t i) * (t j - t i) := by
    rw [← abs_mul_abs_self]
    exact one_le_mul_of_one_le_of_one_le hij hij
  have hsquares : 1 / 2 ≤ (t i - m) * (t i - m) + (t j - m) * (t j - m) := by
    nlinarith [sq_nonneg (t i + t j - 2 * m), hapart]
  have hscaled := mul_le_mul_of_nonneg_left hsquares hc
  rw [mul_add] at hscaled
  simp only [List.map_cons, List.sum_cons]
  linarith [hterm i hi, hterm j hj]

end RustyTime.LeastSquares
