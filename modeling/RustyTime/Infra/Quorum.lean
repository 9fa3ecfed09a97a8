import Mathlib.Algebra.BigOperators.Ring.List
import Mathlib.Algebra.Order.BigOperators.Group.List
import Mathlib.Algebra.Order.BigOperators.Group.Multiset
import Mathlib.Algebra.Order.Field.Basic
import Mathlib.Tactic.FieldSimp
import Mathlib.Tactic.Linarith
import Mathlib.Tactic.Ring

/-!
# Quorums, and the means a minority cannot move

Votes are the members of a list, each with a value and a radius. The mean weighs a vote by the
inverse of its radius, so a vote with a wide radius counts for little.

* `le_countP_and`, `exists_of_quorums` — two quorums of a list meet
* `abs_mean_sub_le` — a mean lies where its votes do
* `abs_mean_sub_le_of_quorum` — how far off the others can move it from the truth of a quorum
-/

namespace Infra.Quorum

variable {σ : Type*}

/-! ## Counting -/

/-- Two parts of a list have a part in common. -/
theorem le_countP_and (l : List σ) (p q : σ → Bool) :
    l.countP p + l.countP q ≤ l.length + l.countP fun s => p s && q s := by
  induction l with
  | nil => exact le_rfl
  | cons s l ih =>
    simp only [List.countP_cons, List.length_cons]
    cases p s <;> cases q s <;> simp <;> omega

/-- Two majorities have a member in common. -/
theorem exists_of_quorums {l : List σ} {p q : σ → Bool}
    (h : l.length < l.countP p + l.countP q) : ∃ s ∈ l, p s = true ∧ q s = true := by
  have hboth := le_countP_and l p q
  obtain ⟨s, hs, hpq⟩ := List.countP_pos_iff.mp
    (by omega : 0 < l.countP fun s => p s && q s)
  exact ⟨s, hs, Bool.and_eq_true_iff.mp hpq⟩

/-! ## Means -/

variable {R : Type*} [Field R] [LinearOrder R] [IsStrictOrderedRing R]

omit [LinearOrder R] [IsStrictOrderedRing R] in
/-- A sum over what is in a part, where that counts the same for each. -/
theorem sum_map_ite (l : List σ) (p : σ → Bool) (a : R) (f : σ → R) :
    (l.map fun s => if p s then a else f s).sum =
      l.countP p * a + (l.map fun s => if p s then 0 else f s).sum := by
  induction l with
  | nil => simp
  | cons s l ih =>
    rw [List.map_cons, List.sum_cons, ih, List.map_cons, List.sum_cons, List.countP_cons]
    cases p s
    · simp
      ring
    · simp
      ring

/-- A mean is off by no more than its votes are, as they weigh. -/
theorem abs_mean_sub_le {l : List σ} {w x : σ → R} {θ b : R} (hw : ∀ s ∈ l, 0 < w s) (hne : l ≠ [])
    (h : (l.map fun s => w s * |x s - θ|).sum ≤ b * (l.map w).sum) :
    |(l.map fun s => w s * x s).sum / (l.map w).sum - θ| ≤ b := by
  have hpos : 0 < (l.map w).sum := by
    refine List.sum_pos _ ?_ (by simpa using hne)
    intro a ha
    obtain ⟨s, hs, rfl⟩ := List.mem_map.mp ha
    exact hw s hs
  have hsum : (l.map fun s => w s * (x s - θ)).sum =
      (l.map fun s => w s * x s).sum - (l.map w).sum * θ := by
    rw [eq_sub_iff_add_eq, ← List.sum_map_mul_right, ← List.sum_map_add]
    refine congrArg List.sum (List.map_congr_left ?_)
    intro s _
    ring
  have habs : |(l.map fun s => w s * (x s - θ)).sum| ≤ (l.map fun s => w s * |x s - θ|).sum := by
    have hmap : (l.map fun s => w s * |x s - θ|) =
        (l.map fun s => w s * (x s - θ)).map fun a => |a| := by
      rw [List.map_map]
      refine List.map_congr_left ?_
      intro s hs
      rw [Function.comp_apply, abs_mul, abs_of_pos (hw s hs)]
    rw [hmap]
    exact Multiset.abs_sum_le_sum_abs (s := (↑(l.map fun s => w s * (x s - θ)) : Multiset R))
  have heq : (l.map fun s => w s * x s).sum / (l.map w).sum - θ =
      (l.map fun s => w s * (x s - θ)).sum / (l.map w).sum := by
    rw [hsum, sub_div, mul_div_cancel_left₀ θ hpos.ne']
  rw [heq, abs_div, abs_of_pos hpos, div_le_iff₀ hpos]
  exact habs.trans h

/-- **A minority moves a mean only so far.** `m` of at most `n` votes are good: their radius is at
most `ρ`, and they are off by no more than it. The others are off by their radius and `2 * ρ`. -/
theorem abs_mean_sub_le_of_quorum {l : List σ} {x r : σ → R} {good : σ → Bool} {θ ρ : R}
    {n m : ℕ} (hr : ∀ s ∈ l, 0 < r s) (hall : ∀ s ∈ l, |x s - θ| ≤ 2 * ρ + r s)
    (hgood : ∀ s ∈ l, good s = true → |x s - θ| ≤ r s ∧ r s ≤ ρ) (hn : l.length ≤ n)
    (hm : m ≤ l.countP good) (hpos : 0 < m) :
    |(l.map fun s => 1 / r s * x s).sum / (l.map fun s => 1 / r s).sum - θ| ≤
      max 2 ((n : R) / m) * ρ := by
  obtain ⟨g, hg, hggood⟩ := List.countP_pos_iff.mp (hpos.trans_le hm)
  have hρ : 0 < ρ := (hr g hg).trans_le (hgood g hg hggood).2
  have hm' : (0 : R) < m := Nat.cast_pos.mpr hpos
  refine abs_mean_sub_le (fun s hs => one_div_pos.mpr (hr s hs)) (List.ne_nil_of_mem hg) ?_
  -- what a vote is off by, and what it gives the mean to spend on that
  have hoff : ∀ s ∈ l, 1 / r s * |x s - θ| ≤ 1 + if good s then 0 else 2 * ρ * (1 / r s) := by
    intro s hs
    have hrs := hr s hs
    rw [one_div, inv_mul_le_iff₀ hrs]
    split
    · next hsgood => simpa using (hgood s hs hsgood).1
    · calc |x s - θ| ≤ 2 * ρ + r s := hall s hs
        _ = r s * (1 + 2 * ρ * (r s)⁻¹) := by field_simp; ring
  have hspend : ∀ s ∈ l, (if good s then (n : R) / m else 2 * ρ * (1 / r s)) ≤
      max 2 ((n : R) / m) * ρ * (1 / r s) := by
    intro s hs
    have hrs := hr s hs
    split
    · next hsgood =>
      have hnarrow : 1 ≤ ρ * (1 / r s) := by
        rw [mul_one_div, le_div_iff₀ hrs, one_mul]
        exact (hgood s hs hsgood).2
      calc (n : R) / m ≤ max 2 ((n : R) / m) * 1 := by rw [mul_one]; exact le_max_right _ _
        _ ≤ max 2 ((n : R) / m) * (ρ * (1 / r s)) :=
            mul_le_mul_of_nonneg_left hnarrow (le_trans zero_le_two (le_max_left _ _))
        _ = max 2 ((n : R) / m) * ρ * (1 / r s) := (mul_assoc _ _ _).symm
    · have hinv : (0 : R) ≤ 1 / r s := one_div_nonneg.mpr hrs.le
      exact mul_le_mul_of_nonneg_right
        (mul_le_mul_of_nonneg_right (le_max_left _ _) hρ.le) hinv
  have hcount : (l.length : R) ≤ l.countP good * ((n : R) / m) := by
    calc (l.length : R) ≤ n := Nat.cast_le.mpr hn
      _ = m * ((n : R) / m) := (mul_div_cancel₀ _ hm'.ne').symm
      _ ≤ l.countP good * ((n : R) / m) :=
          mul_le_mul_of_nonneg_right (Nat.cast_le.mpr hm) (div_nonneg (Nat.cast_nonneg n) hm'.le)
  calc (l.map fun s => 1 / r s * |x s - θ|).sum
      ≤ (l.map fun s => 1 + if good s then 0 else 2 * ρ * (1 / r s)).sum :=
        List.sum_le_sum hoff
    _ = l.length + (l.map fun s => if good s then 0 else 2 * ρ * (1 / r s)).sum := by
        rw [List.sum_map_add, List.map_const', List.sum_replicate, nsmul_eq_mul, mul_one]
    _ ≤ l.countP good * ((n : R) / m) +
          (l.map fun s => if good s then 0 else 2 * ρ * (1 / r s)).sum := by gcongr
    _ = (l.map fun s => if good s then (n : R) / m else 2 * ρ * (1 / r s)).sum :=
        (sum_map_ite l good _ _).symm
    _ ≤ (l.map fun s => max 2 ((n : R) / m) * ρ * (1 / r s)).sum := List.sum_le_sum hspend
    _ = max 2 ((n : R) / m) * ρ * (l.map fun s => 1 / r s).sum := List.sum_map_mul_left _ _ _

end Infra.Quorum
