import Mathlib.Algebra.BigOperators.Ring.List
import RustyTime.Properties.Present

/-!
# The fits are optimal

`wls_fit` solves the normal equations of its rows. The offset is re-seated on a second set of
weights with the slope held fixed, where one normal equation is left.

* `wlsFit_optimal` — no line has a smaller weighted sum of squares
* `offsetAt_bestAt` — nor has any of its slope, under the offset's weights, where these are read
* `fitted_fits` — what is finally fitted is what was finally kept
* `regress_optimal` — both, for every regression of every register
-/

namespace RustyTime

open RustyTime.LeastSquares

set_option linter.unusedSectionVars false

variable {R : Type} [Field R] [LinearOrder R] [IsStrictOrderedRing R]
  {rows used kept : List (Row R)} {fit : Fit R} {now minDelay : R}

/-- The weighted sum of the rows' squared residuals about the line `a + b * t`. -/
def rowsSsr (weight : Row R → R) (rows : List (Row R)) (a b : R) : R :=
  ssr weight (fun r => r.t) (fun r => r.offset) rows a b

/-! ## The plain fit -/

/-- What `wls_fit` returns, field by field. -/
theorem wlsFit_eq_some (h : wlsFit rows = some fit) :
    2 ≤ rows.length ∧ 0 < (rows.map fun r => r.w).sum ∧
      fit.t0 = mean (fun r : Row R => r.w) (fun r => r.t) rows ∧
      fit.a = (rows.map fun r => r.w * r.offset).sum / (rows.map fun r => r.w).sum ∧
      fit.sxx = (rows.map fun r => r.w * (r.t - fit.t0) * (r.t - fit.t0)).sum ∧
      (1e-12 < fit.sxx →
        fit.b = (rows.map fun r => r.w * (r.t - fit.t0) * r.offset).sum / fit.sxx) := by
  unfold wlsFit at h
  split at h
  · cases h
  · next hlen =>
    dsimp only at h
    split at h
    · cases h
    · next hsw =>
      cases h
      exact ⟨by omega, not_le.mp hsw, rfl, rfl, rfl, fun hsxx => if_pos hsxx⟩

/-- The residuals of a fit have mean 0, whatever its slope. -/
theorem wlsFit_balanced (h : wlsFit rows = some fit) :
    (rows.map fun r =>
      r.w * (r.offset - ((fit.a - fit.b * fit.t0) + fit.b * r.t))).sum = 0 := by
  obtain ⟨-, hsw, ht0, ha, -, -⟩ := wlsFit_eq_some h
  rw [sum_sub_line (fun r : Row R => r.w) (fun r => r.t) (fun r => r.offset), ha, ht0, mean]
  have hne := hsw.ne'
  field_simp
  ring

/-- Above the threshold of the spread they have no covariance with the times. -/
theorem wlsFit_uncorrelated (h : wlsFit rows = some fit) (hsxx : 1e-12 < fit.sxx) :
    (rows.map fun r =>
      r.w * r.t * (r.offset - ((fit.a - fit.b * fit.t0) + fit.b * r.t))).sum = 0 := by
  have hbalanced := wlsFit_balanced h
  obtain ⟨-, hsw, ht0, -, hspread, hb⟩ := wlsFit_eq_some h
  have hne : fit.sxx ≠ 0 := (lt_trans (by norm_num) hsxx).ne'
  -- about the mean time the covariance is that of the offsets less the slope's
  have hcentred := covariance_sub_line (w := fun r : Row R => r.w) (t := fun r => r.t)
    (y := fun r => r.offset) hsw.ne' (fit.a - fit.b * fit.t0) fit.b
  rw [← ht0, ← hspread, hb hsxx, div_mul_cancel₀ _ hne, sub_self, ← hb hsxx] at hcentred
  have hsplit : (rows.map fun r =>
      r.w * r.t * (r.offset - ((fit.a - fit.b * fit.t0) + fit.b * r.t))).sum =
        (rows.map fun r => r.w * (r.t - fit.t0) *
          (r.offset - ((fit.a - fit.b * fit.t0) + fit.b * r.t))).sum
        + fit.t0 * (rows.map fun r =>
          r.w * (r.offset - ((fit.a - fit.b * fit.t0) + fit.b * r.t))).sum := by
    rw [← List.sum_map_mul_left, ← List.sum_map_add]
    congr 1
    refine List.map_congr_left fun r _ => ?_
    ring
  rw [hsplit, hcentred, hbalanced, mul_zero, add_zero]

/-- **No line has a smaller weighted sum of squares than the fit.** -/
theorem wlsFit_optimal (h : wlsFit rows = some fit) (hw : ∀ r ∈ rows, 0 ≤ r.w)
    (hsxx : 1e-12 < fit.sxx) (a b : R) :
    (rows.map fun r => r.w * (fit.resid r * fit.resid r)).sum ≤
      rowsSsr (fun r => r.w) rows a b := by
  have hresid : (rows.map fun r => r.w * (fit.resid r * fit.resid r)).sum =
      rowsSsr (fun r => r.w) rows (fit.a - fit.b * fit.t0) fit.b := by
    unfold rowsSsr ssr Fit.resid
    congr 1
    refine List.map_congr_left fun r _ => ?_
    ring
  rw [hresid]
  exact ssr_le_of_normal hw (wlsFit_balanced h) (wlsFit_uncorrelated h hsxx) a b

/-! ## The offset's weights -/

namespace SampleRegister

variable {reg : SampleRegister R}

/-- Whether the offset has weights of its own. -/
def Reseats (reg : SampleRegister R) : Prop :=
  reg.offsetWeightFloorRatio ≠ reg.weightFloorRatio ∨ 0 < reg.offsetWeightDispersionK ∨
    reg.offsetAgeHalflifeS ≠ ⊤

instance (reg : SampleRegister R) : Decidable reg.Reseats :=
  inferInstanceAs (Decidable (_ ∨ _ ∨ _))

/-- The floor under the excess delay for the offset. -/
def sharpFloor (reg : SampleRegister R) (minDelay : R) (used : List (Row R)) : R :=
  if 0 < reg.offsetWeightDispersionK then
    max (max (reg.offsetWeightDispersionK *
      (selectNth (used.map fun r => r.delay) (used.length / 2) - minDelay)) (minDelay * 1e-4)) 1e-9
  else max (minDelay * reg.offsetWeightFloorRatio) 1e-9

/-- A row's weight for the offset: by its delay, decayed by its age when there is a half-life. -/
def sharpWeight (std : StdFloat R) (reg : SampleRegister R) (minDelay now : R)
    (used : List (Row R)) (r : Row R) : R :=
  match reg.offsetAgeHalflifeS with
  | none => baseWeight minDelay (reg.sharpFloor minDelay used) r.delay
  | some halflife =>
    baseWeight minDelay (reg.sharpFloor minDelay used) r.delay *
      std.halfPow (max (now - r.t) 0 / halflife)

theorem offsetAt_of_reseats {std : StdFloat R} (h : reg.Reseats) :
    reg.offsetAt std minDelay now used fit =
      let weight := reg.sharpWeight std minDelay now used
      let sw := (used.map weight).sum
      if 0 < sw then
        (used.map fun r => weight r * r.offset).sum / sw +
          fit.b * (now - (used.map fun r => weight r * r.t).sum / sw)
      else fit.a + fit.b * (now - fit.t0) :=
  if_pos h

theorem offsetAt_of_not_reseats {std : StdFloat R} (h : ¬reg.Reseats) :
    reg.offsetAt std minDelay now used fit = fit.a + fit.b * (now - fit.t0) :=
  if_neg h

theorem sharpWeight_nonneg {std : StdFloat R} (hpow : ∀ x, 0 ≤ std.halfPow x) (r : Row R) :
    0 ≤ reg.sharpWeight std minDelay now used r := by
  have hbase : ∀ floor : R, 0 ≤ baseWeight minDelay floor r.delay := fun floor =>
    le_trans (by norm_num) (le_baseWeight minDelay floor r.delay)
  unfold sharpWeight
  split
  · exact hbase _
  · exact mul_nonneg (hbase _) (hpow _)

/-- The value at `now` of the line of slope `b` whose intercept no other betters. -/
def BestAt (weight : Row R → R) (used : List (Row R)) (b now value : R) : Prop :=
  ∃ a, value = a + b * now ∧ ∀ a', rowsSsr weight used a b ≤ rowsSsr weight used a' b

/-- The weighted mean offset about the weighted mean time, taken to `now`. -/
theorem bestAt_of_means {weight : Row R → R} (hw : ∀ r ∈ used, 0 ≤ weight r)
    (hsw : 0 < (used.map weight).sum) (b now : R) :
    BestAt weight used b now ((used.map fun r => weight r * r.offset).sum / (used.map weight).sum +
      b * (now - (used.map fun r => weight r * r.t).sum / (used.map weight).sum)) := by
  refine ⟨(used.map fun r => weight r * r.offset).sum / (used.map weight).sum -
    b * ((used.map fun r => weight r * r.t).sum / (used.map weight).sum), by ring, ?_⟩
  refine ssr_le_of_balanced hw ?_
  rw [sum_sub_line weight (fun r => r.t) (fun r => r.offset)]
  have hne := hsw.ne'
  field_simp
  ring

/-- Weights that sum to nothing make every line as good. -/
theorem bestAt_of_sum_eq_zero {weight : Row R → R} (hw : ∀ r ∈ used, 0 ≤ weight r)
    (hsw : (used.map weight).sum = 0) (b now value : R) : BestAt weight used b now value := by
  have hzero : ∀ r ∈ used, weight r = 0 := fun r hr =>
    List.all_zero_of_le_zero_le_of_sum_eq_zero
      (fun x hx => by obtain ⟨r', hr', rfl⟩ := List.mem_map.mp hx; exact hw r' hr')
      hsw (List.mem_map.mpr ⟨r, hr, rfl⟩)
  have hssr : ∀ a, rowsSsr weight used a b = 0 := fun a => by
    refine List.sum_eq_zero fun x hx => ?_
    obtain ⟨r, hr, rfl⟩ := List.mem_map.mp hx
    rw [hzero r hr, zero_mul]
  exact ⟨value - b * now, by ring, fun a' => by rw [hssr, hssr]⟩

/-- **The re-seated offset is the best of its slope.** -/
theorem offsetAt_bestAt {std : StdFloat R} (hpow : ∀ x, 0 ≤ std.halfPow x) (h : reg.Reseats) :
    BestAt (reg.sharpWeight std minDelay now used) used fit.b now
      (reg.offsetAt std minDelay now used fit) := by
  have hw : ∀ r ∈ used, 0 ≤ reg.sharpWeight std minDelay now used r :=
    fun r _ => sharpWeight_nonneg hpow r
  rw [offsetAt_of_reseats h]
  dsimp only
  split
  · next hsw => exact bestAt_of_means hw hsw fit.b now
  · next hsw =>
    refine bestAt_of_sum_eq_zero hw (le_antisymm (not_lt.mp hsw) (List.sum_nonneg ?_)) _ _ _
    intro x hx
    obtain ⟨r, hr, rfl⟩ := List.mem_map.mp hx
    exact hw r hr

/-! ## What is finally fitted -/

/-- Two rows or more, with no fit other than this one. -/
structure Fits (used : List (Row R)) (fit : Fit R) : Prop where
  two : 2 ≤ used.length
  only : ∀ refit, wlsFit used = some refit → refit = fit

theorem fits_of_wlsFit (h : wlsFit used = some fit) : Fits used fit :=
  ⟨(wlsFit_eq_some h).1, fun _ hrefit => Option.some.inj (hrefit.symm.trans h)⟩

theorem adaptWindow_fits {std : StdFloat R} {result : List (Row R) × Fit R} (h : Fits used fit)
    (hadapt : adaptWindow std now used fit = some result) : Fits result.1 result.2 := by
  unfold adaptWindow at hadapt
  dsimp only at hadapt
  generalize bestLenFrom std now used used.length 8 _ used.length = bestLen at hadapt
  split at hadapt
  · obtain ⟨refit, hrefit, rfl⟩ := Option.map_eq_some_iff.mp hadapt
    exact fits_of_wlsFit hrefit
  · cases hadapt
    exact h

/-- Where a shorter history has no fit, the pass ends with it. -/
theorem dropHistory_fits : ∀ (passes : ℕ) {used : List (Row R)} {fit : Fit R}, Fits used fit →
    Fits (dropHistory passes used fit).1 (dropHistory passes used fit).2
  | 0, _, _, h => h
  | passes + 1, used, fit, h => by
    unfold dropHistory
    dsimp only
    split
    · exact h
    · split
      · exact h
      · split
        · exact h
        · cases hrefit : wlsFit (used.drop (max (used.length / 4) 2)) with
          | none =>
            refine ⟨?_, fun refit hsome => absurd (hrefit.symm.trans hsome) (by simp)⟩
            rw [List.length_drop]
            omega
          | some refit => exact dropHistory_fits passes (fits_of_wlsFit hrefit)

theorem trimSpikes_fits (h : Fits used fit) :
    Fits (trimSpikes used fit).1 (trimSpikes used fit).2 := by
  rw [trimSpikes_eq]
  split
  · rcases spikeKeepMask used fit with - | ⟨threshold, mask⟩
    · exact h
    · dsimp only
      unfold refitKept
      split
      · cases hrefit : wlsFit (keptRows used fit threshold mask) with
        | none => exact h
        | some refit => exact fits_of_wlsFit hrefit
      · exact h
  · exact h

theorem survivors_fits {std : StdFloat R} {result : List (Row R) × Fit R} (h : Fits used fit)
    (hsurvive : reg.survivors std now used fit = some result) : Fits result.1 result.2 := by
  have hpasses : ∀ {used : List (Row R)} {fit : Fit R}, Fits used fit →
      Fits (trimSpikes (dropHistory 4 used fit).1 (dropHistory 4 used fit).2).1
        (trimSpikes (dropHistory 4 used fit).1 (dropHistory 4 used fit).2).2 :=
    fun h => trimSpikes_fits (dropHistory_fits 4 h)
  unfold survivors at hsurvive
  obtain ⟨adapted, hadapt, rfl⟩ := Option.map_eq_some_iff.mp hsurvive
  split at hadapt
  · exact hpasses (adaptWindow_fits h hadapt)
  · cases hadapt
    exact hpasses h

theorem fitted_fits {std : StdFloat R} (h : reg.fitted std now = some (used, fit)) :
    Fits used fit := by
  unfold fitted at h
  split at h
  · cases h
  · obtain ⟨first, hfirst, hsurvive⟩ := Option.bind_eq_some_iff.mp h
    exact survivors_fits (fits_of_wlsFit hfirst) hsurvive

/-! ## One set of weights -/

/-- Without decay every row has weight for the offset. -/
theorem sharpWeight_pos {std : StdFloat R} (hage : reg.offsetAgeHalflifeS = ⊤) (r : Row R) :
    0 < reg.sharpWeight std minDelay now used r := by
  unfold sharpWeight
  rw [hage]
  exact lt_of_lt_of_le (by norm_num) (le_baseWeight minDelay (reg.sharpFloor minDelay used) r.delay)

/-- Rows that carry their offset's weight are fitted. -/
theorem Fits.wlsFit_of_coincide {std : StdFloat R} (h : Fits used fit)
    (hage : reg.offsetAgeHalflifeS = ⊤)
    (hsame : ∀ r ∈ used, reg.sharpWeight std minDelay now used r = r.w) :
    wlsFit used = some fit := by
  obtain ⟨refit, hrefit⟩ := wlsFit_isSome (fun r hr => by
    rw [← hsame r hr]
    exact sharpWeight_pos hage r) h.two
  rw [hrefit, h.only refit hrefit]

theorem BestAt.congr {weight weight' : Row R → R} {b value : R}
    (h : BestAt weight used b now value) (hsame : ∀ r ∈ used, weight' r = weight r) :
    BestAt weight' used b now value := by
  have hssr : ∀ a, rowsSsr weight' used a b = rowsSsr weight used a b := fun a => by
    unfold rowsSsr ssr
    congr 1
    exact List.map_congr_left fun r hr => by rw [hsame r hr]
  obtain ⟨a, ha, hbest⟩ := h
  exact ⟨a, ha, fun a' => by rw [hssr, hssr]; exact hbest a'⟩

/-- The plain fit's prediction is the best of its slope under its own weights. -/
theorem plain_bestAt (h : wlsFit used = some fit) (hw : ∀ r ∈ used, 0 ≤ r.w) :
    BestAt (fun r => r.w) used fit.b now (fit.a + fit.b * (now - fit.t0)) :=
  ⟨fit.a - fit.b * fit.t0, by ring, ssr_le_of_balanced hw (wlsFit_balanced h)⟩

/-- When the two weightings coincide, re-seating changes nothing. -/
theorem offsetAt_of_coincide {std : StdFloat R} (hfit : wlsFit used = some fit)
    (hsame : ∀ r ∈ used, reg.sharpWeight std minDelay now used r = r.w) :
    reg.offsetAt std minDelay now used fit = fit.a + fit.b * (now - fit.t0) := by
  by_cases hreseats : reg.Reseats
  · obtain ⟨-, hsw, ht0, ha, -, -⟩ := wlsFit_eq_some hfit
    have hsum : ∀ f : Row R → R, used.map (fun r => reg.sharpWeight std minDelay now used r * f r) =
        used.map fun r => r.w * f r := fun f =>
      List.map_congr_left fun r hr => by rw [hsame r hr]
    have hweights : used.map (reg.sharpWeight std minDelay now used) = used.map fun r => r.w :=
      List.map_congr_left hsame
    rw [offsetAt_of_reseats hreseats]
    dsimp only
    rw [hweights, hsum, hsum, if_pos hsw, ha, ht0, mean]
  · exact offsetAt_of_not_reseats hreseats

/-! ## The regression -/

theorem regress_report {std : StdFloat R} {e : RegressEstimate R}
    (h : (reg.regress std now).2 = some e) :
    ∃ minDelay used fit, reg.minDelay = some minDelay ∧ reg.fitted std now = some (used, fit) ∧
      e = reg.report std minDelay now (used, fit) := by
  by_cases hlen : reg.len < 3
  · unfold regress at h
    rw [if_pos hlen] at h
    cases h
  · rcases hmin : reg.minDelay with - | minDelay
    · unfold regress at h
      rw [if_neg hlen, hmin] at h
      cases h
    · rw [regress_eq_report std reg now (not_lt.mp hlen) hmin] at h
      obtain ⟨⟨used, fit⟩, hfitted, rfl⟩ := Option.map_eq_some_iff.mp h
      exact ⟨minDelay, used, fit, rfl, hfitted, rfl⟩

/-- **The fits are optimal.** Every fit minimises its rows' weighted sum of squares. Where the
offset has weights of its own, or the rows carry them already, the reported offset is the best of
the final slope; where it has none it is the final fit's prediction, and so it is when the two
weightings coincide without decay. -/
theorem regress_optimal {std : StdFloat R} (hpow : ∀ x, 0 ≤ std.halfPow x) :
    (∀ rows : List (Row R), 2 ≤ rows.length → (∀ r ∈ rows, 0 < r.w) →
      ∃ fit, wlsFit rows = some fit ∧ (1e-12 < fit.sxx → ∀ a b,
        (rows.map fun r => r.w * (fit.resid r * fit.resid r)).sum ≤
          rowsSsr (fun r => r.w) rows a b)) ∧
      ∀ (reg : SampleRegister R) (now : R) (e : RegressEstimate R),
        (reg.regress std now).2 = some e →
        ∃ minDelay used fit, reg.minDelay = some minDelay ∧
          reg.fitted std now = some (used, fit) ∧ e.nUsed = used.length ∧
          (∀ f ∈ e.freqPpm, f = fit.b * 1e6) ∧
          (reg.Reseats ∨ (∀ r ∈ used, reg.sharpWeight std minDelay now used r = r.w) →
            BestAt (reg.sharpWeight std minDelay now used) used fit.b now e.offset) ∧
          (¬reg.Reseats ∨ reg.offsetAgeHalflifeS = ⊤ ∧
              (∀ r ∈ used, reg.sharpWeight std minDelay now used r = r.w) →
            e.offset = fit.a + fit.b * (now - fit.t0)) := by
  refine ⟨fun rows hlen hw => ?_, fun reg now e he => ?_⟩
  · obtain ⟨fit, hfit⟩ := wlsFit_isSome hw hlen
    exact ⟨fit, hfit, fun hsxx => wlsFit_optimal hfit (fun r hr => (hw r hr).le) hsxx⟩
  · obtain ⟨minDelay, used, fit, hmin, hfitted, rfl⟩ := regress_report he
    have hfits := fitted_fits hfitted
    refine ⟨minDelay, used, fit, hmin, hfitted, rfl, ?_, ?_, ?_⟩
    · intro f hf
      obtain ⟨-, hf⟩ := Option.ite_none_right_eq_some.mp hf
      exact (Option.some.inj hf).symm
    · intro h
      by_cases hreseats : reg.Reseats
      · exact offsetAt_bestAt hpow hreseats
      · have hsame := h.resolve_left hreseats
        have hage : reg.offsetAgeHalflifeS = ⊤ := by
          by_contra hdecays
          exact hreseats (.inr (.inr hdecays))
        have hfit := hfits.wlsFit_of_coincide hage hsame
        show BestAt _ used fit.b now (reg.offsetAt std minDelay now used fit)
        rw [offsetAt_of_not_reseats hreseats]
        refine BestAt.congr (plain_bestAt hfit fun r hr => ?_) hsame
        rw [← hsame r hr]
        exact sharpWeight_nonneg hpow r
    · rintro (hplain | ⟨hage, hsame⟩)
      · exact offsetAt_of_not_reseats hplain
      · exact offsetAt_of_coincide (hfits.wlsFit_of_coincide hage hsame) hsame

/-- Three samples of one path, the last of them late. -/
def lateThird : List (Sample ℚ) := [⟨0, 0, 1, 0⟩, ⟨1, 0, 1, 0⟩, ⟨10, 1, 1, 0⟩]

/-- A search that finds the first match. -/
def firstMatch : StdFloat ℚ := ⟨id, fun _ => 1, fun times t => times.findIdx? fun t' => t' = t⟩

theorem regress_optimal_late :
    let reg := lateThird.foldl push (new 4)
    ∃ e minDelay used fit, (reg.regress firstMatch 10).2 = some e ∧
      reg.fitted firstMatch 10 = some (used, fit) ∧
      BestAt (reg.sharpWeight firstMatch minDelay 10 used) used fit.b 10 e.offset := by
  intro reg
  obtain ⟨e, he⟩ := Option.isSome_iff_exists.mp
    (by decide +kernel : (reg.regress firstMatch 10).2.isSome = true)
  have hpow : ∀ x, 0 ≤ firstMatch.halfPow x := fun _ => zero_le_one
  obtain ⟨minDelay, used, fit, -, hfitted, -, -, hbest, -⟩ :=
    (regress_optimal hpow).2 reg 10 e he
  exact ⟨e, minDelay, used, fit, he, hfitted, hbest (.inl (by decide +kernel))⟩

/-- With one ratio for slope and offset and the density weighting on, the offset is the density
weighted one: under the weights by delay another line of the same slope is better. -/
theorem offset_not_best_density :
    ¬∀ (reg : SampleRegister ℚ) (e : RegressEstimate ℚ) (minDelay : ℚ) (used : List (Row ℚ))
        (fit : Fit ℚ), (reg.regress firstMatch 10).2 = some e → reg.minDelay = some minDelay →
        reg.fitted firstMatch 10 = some (used, fit) →
        BestAt (reg.sharpWeight firstMatch minDelay 10 used) used fit.b 10 e.offset := by
  intro hall
  let reg := lateThird.foldl push
    (((new 4).setOffsetWeightFloorRatio 0.125).setSlopeDensityWeighting true)
  obtain ⟨e, he⟩ := Option.isSome_iff_exists.mp
    (by decide +kernel : (reg.regress firstMatch 10).2.isSome = true)
  obtain ⟨minDelay, used, fit, hmin, hfitted, rfl⟩ := regress_report he
  obtain rfl : (1 : ℚ) = minDelay := WithTop.coe_injective hmin
  obtain ⟨a, ha, hbest⟩ := hall reg _ 1 used fit he hmin hfitted
  have hworse : (reg.fitted firstMatch 10).all (fun p =>
      decide (rowsSsr (reg.sharpWeight firstMatch 1 10 p.1) p.1 (-17 / 246) p.2.b <
        rowsSsr (reg.sharpWeight firstMatch 1 10 p.1) p.1
          (reg.offsetAt firstMatch 1 10 p.1 p.2 - p.2.b * 10) p.2.b)) = true := by
    decide +kernel
  rw [hfitted] at hworse
  have hlt := of_decide_eq_true hworse
  have hsame : reg.offsetAt firstMatch 1 10 used fit - fit.b * 10 = a := by
    have hoffset : reg.offsetAt firstMatch 1 10 used fit = a + fit.b * 10 := ha
    rw [hoffset, add_sub_cancel_right]
  rw [hsame] at hlt
  exact absurd (hbest (-17 / 246)) (not_le.mpr hlt)

end SampleRegister

end RustyTime
