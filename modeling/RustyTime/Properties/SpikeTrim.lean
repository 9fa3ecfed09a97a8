import RustyTime.Infra.Rank
import RustyTime.Properties.Regression

/-!
# The counting shortcut of the spike trim

`spike_threshold_from` counts where the plain rule sorts, and `spike_keep_mask` tests a bit where
the plain rule compares.

* `spikeThresholdFrom_eq_some_iff` — the count decides what the median would
* `spikeTrim_plain` — the threshold and the mask are those of the plain rule
-/

namespace RustyTime

open Infra.Mask Infra.Rank

variable {R : Type} [Field R] [LinearOrder R]

theorem worstOf_eq_foldl_max (xs : List R) : worstOf xs = xs.foldl max 0 := by
  unfold worstOf
  congr 1
  funext worst v
  exact (max_def_lt worst v).symm

/-- Over residuals that are not negative the running maximum from 0 is the maximum. -/
theorem worstOf_eq_of_max? {xs : List R} (hxs : ∀ v ∈ xs, 0 ≤ v) {worst : R}
    (h : xs.max? = some worst) : worstOf xs = worst := by
  cases xs with
  | nil => cases h
  | cons x xs =>
    have hx : max 0 x = x := max_eq_right (hxs x List.mem_cons_self)
    rw [worstOf_eq_foldl_max, List.foldl_cons, hx]
    rw [List.max?_cons'] at h
    exact Option.some.inj h

/-- Up to 64 rows the mask has the bit of each row that is kept. -/
theorem spikeKeepMask_eq_some {rows : List (Row R)} {fit : Fit R} {t : R} (hpos : 0 < rows.length)
    (hn : rows.length ≤ 64)
    (h : spikeThresholdFrom (rows.map fun r => |fit.resid r|) rows.length = some t) :
    spikeKeepMask rows fit =
      some (t, some (keepBits (rows.length - 3) t (rows.map fun r => |fit.resid r|))) := by
  unfold spikeKeepMask
  dsimp only
  rw [if_neg hpos.ne', h]
  dsimp only
  rw [if_neg (not_lt.mpr hn)]

variable [IsStrictOrderedRing R]

/-- **The counting pass answers what the median would.** At least `mid + 1` scaled residuals are
under `worst` exactly when the scaled median is. -/
theorem le_countP_iff_median (abs : List R) (mid : ℕ) (worst : R) :
    mid + 1 ≤ abs.countP (fun v => decide (3.0 * 1.4826 * v < worst)) ↔
      ∃ m, (abs.mergeSort fun x y => decide (x ≤ y))[mid]? = some m ∧
        3.0 * 1.4826 * m < worst := by
  have hscale : (0 : R) ≤ 3.0 * 1.4826 := by norm_num
  have hdown : ∀ a b : R, a ≤ b → decide (3.0 * 1.4826 * b < worst) = true →
      decide (3.0 * 1.4826 * a < worst) = true := fun a b hab hb =>
    decide_eq_true ((mul_le_mul_of_nonneg_left hab hscale).trans_lt (of_decide_eq_true hb))
  rw [Nat.add_one_le_iff, lt_countP_iff hdown]
  simp only [decide_eq_true_eq]

theorem spikeThresholdFrom_eq_some_iff {abs : List R} (hn : 4 ≤ abs.length)
    (habs : ∀ v ∈ abs, 0 ≤ v) (t : R) :
    spikeThresholdFrom abs abs.length = some t ↔
      ∃ m worst, (abs.mergeSort fun x y => decide (x ≤ y))[abs.length / 2]? = some m ∧
        (abs.take (abs.length - 3)).max? = some worst ∧
        t = max (3.0 * 1.4826 * m) 1e-9 ∧ t < worst := by
  have hmid : abs.length / 2 < (abs.mergeSort fun x y => decide (x ≤ y)).length := by
    rw [List.length_mergeSort]
    omega
  obtain ⟨m, hm⟩ : ∃ m, (abs.mergeSort fun x y => decide (x ≤ y))[abs.length / 2]? = some m :=
    ⟨_, List.getElem?_eq_getElem hmid⟩
  obtain ⟨worst, hworst⟩ : ∃ worst, (abs.take (abs.length - 3)).max? = some worst := by
    refine Option.ne_none_iff_exists'.mp fun hnone => ?_
    have hlen := congrArg List.length (List.max?_eq_none_iff.mp hnone)
    rw [List.length_take, List.length_nil] at hlen
    omega
  have hw : worstOf (abs.take (abs.length - 3)) = worst :=
    worstOf_eq_of_max? (fun v hv => habs v (List.mem_of_mem_take hv)) hworst
  have hcount := le_countP_iff_median abs (abs.length / 2) worst
  simp only [hm, Option.some.injEq, exists_eq_left'] at hcount
  simp only [hm, hworst, Option.some.injEq, ↓existsAndEq, true_and]
  unfold spikeThresholdFrom selectNth
  dsimp only
  rw [hw, hm, Option.getD_some]
  by_cases hsmall : worst ≤ 1e-9
  · rw [if_pos hsmall]
    refine iff_of_false (by simp) ?_
    rintro ⟨rfl, hlt⟩
    exact absurd ((le_max_right _ _).trans_lt hlt) (not_lt.mpr hsmall)
  · rw [if_neg hsmall]
    by_cases hbelow : abs.countP (fun v => decide (3.0 * 1.4826 * v < worst)) < abs.length / 2 + 1
    · rw [if_pos hbelow]
      refine iff_of_false (by simp) ?_
      rintro ⟨rfl, hlt⟩
      exact absurd (hcount.mpr ((le_max_left _ _).trans_lt hlt)) (not_le.mpr hbelow)
    · rw [if_neg hbelow, Option.some.injEq]
      constructor
      · rintro rfl
        exact ⟨rfl, max_lt (hcount.mp (not_lt.mp hbelow)) (not_le.mp hsmall)⟩
      · rintro ⟨rfl, -⟩
        rfl

/-- **The shortcut is the plain rule.** The threshold is there exactly when the largest residual
the trim may drop exceeds the scaled median and the floor, and is their larger; up to 64 rows bit
`i` of the mask is the walk's test of row `i`. -/
theorem spikeTrim_plain {abs : List R} (hn : 4 ≤ abs.length) (habs : ∀ v ∈ abs, 0 ≤ v) (t : R) :
    (spikeThresholdFrom abs abs.length = some t ↔
      ∃ m worst, (abs.mergeSort fun x y => decide (x ≤ y))[abs.length / 2]? = some m ∧
        (abs.take (abs.length - 3)).max? = some worst ∧
        t = max (3.0 * 1.4826 * m) 1e-9 ∧ t < worst) ∧
      ∀ (rows : List (Row R)) (fit : Fit R), (rows.map fun r => |fit.resid r|) = abs →
        abs.length ≤ 64 → spikeThresholdFrom abs abs.length = some t →
        ∃ keep, spikeKeepMask rows fit = some (t, some keep) ∧
          (∀ i, i < 64 → ((keep &&& 1#64 <<< i != 0#64) = true ↔
            ∃ v, abs[i]? = some v ∧ (abs.length - 3 ≤ i ∨ v ≤ t))) ∧
          keptRows rows fit t (some keep) = keptRows rows fit t none := by
  refine ⟨spikeThresholdFrom_eq_some_iff hn habs t, ?_⟩
  rintro rows fit rfl hwidth h
  rw [List.length_map] at hn hwidth h ⊢
  refine ⟨_, spikeKeepMask_eq_some (by omega) hwidth h, fun i hi => ?_,
    keptRows_keepBits rows fit t hwidth⟩
  rw [keepBits_and_shift _ _ _ hi]
  cases (rows.map fun r => |fit.resid r|)[i]? with
  | none => simp
  | some v => simp

/-- One spike in the middle of six rows. -/
theorem spikeTrim_plain_spike :
    let abs : List Rat := [1, 9, 1, 1, 1, 1]
    (spikeThresholdFrom abs abs.length = some 4.4478 ↔
      ∃ m worst, (abs.mergeSort fun x y => decide (x ≤ y))[abs.length / 2]? = some m ∧
        (abs.take (abs.length - 3)).max? = some worst ∧
        4.4478 = max (3.0 * 1.4826 * m) 1e-9 ∧ 4.4478 < worst) ∧
      ∀ (rows : List (Row Rat)) (fit : Fit Rat), (rows.map fun r => |fit.resid r|) = abs →
        abs.length ≤ 64 → spikeThresholdFrom abs abs.length = some 4.4478 →
        ∃ keep, spikeKeepMask rows fit = some (4.4478, some keep) ∧
          (∀ i, i < 64 → ((keep &&& 1#64 <<< i != 0#64) = true ↔
            ∃ v, abs[i]? = some v ∧ (abs.length - 3 ≤ i ∨ v ≤ 4.4478))) ∧
          keptRows rows fit 4.4478 (some keep) = keptRows rows fit 4.4478 none :=
  spikeTrim_plain (by decide) (by decide) 4.4478

end RustyTime
