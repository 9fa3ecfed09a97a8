import Mathlib.Algebra.Order.Ring.Rat
import Mathlib.Data.List.Sort
import RustyTime.Properties.Regression

/-!
# Slewing the history slews the estimate

`slew_samples` takes a line away from the stored offsets. Every fit loses that line and nothing
else: the residuals stay, so every pass of the regression keeps the same rows.

* `wlsFit_slewed` — one fit
* `adaptWindow_slewed`, `dropHistory_slewed`, `trimSpikes_slewed`, `offsetAt_slewed` — the passes
* `regressRows_slewSamples` — all of them, over the samples of a register
* `slew_estimate` — the estimate
-/

namespace RustyTime

open RustyTime.LeastSquares

set_option linter.unusedSectionVars false

variable {R : Type} [Field R] [LinearOrder R] [IsStrictOrderedRing R]
  {α β now : R} {rows used : List (Row R)} {fit : Fit R}

/-! ## A line taken away -/

/-- A row without the line `α + β t`. -/
def Row.slewed (α β : R) (r : Row R) : Row R := { r with offset := r.offset - (α + β * r.t) }

/-- A fit without that line. -/
def Fit.slewed (α β : R) (fit : Fit R) : Fit R :=
  { fit with a := fit.a - (α + β * fit.t0), b := fit.b - β }

@[simp] theorem Fit.slewed_sxx (α β : R) (fit : Fit R) : (fit.slewed α β).sxx = fit.sxx := rfl
@[simp] theorem Fit.slewed_sw (α β : R) (fit : Fit R) : (fit.slewed α β).sw = fit.sw := rfl

/-- A working set and its fit without that line. -/
def slewedPair (α β : R) (result : List (Row R) × Fit R) : List (Row R) × Fit R :=
  (result.1.map (Row.slewed α β), result.2.slewed α β)

/-- The residuals stay. -/
@[simp] theorem resid_slewed (α β : R) (fit : Fit R) (r : Row R) :
    (fit.slewed α β).resid (r.slewed α β) = fit.resid r := by
  unfold Fit.resid Fit.slewed Row.slewed
  ring

/-- Rows that carry weight and are apart in time. Their spread is above what `wls_fit` takes for
nothing. -/
structure Apart (rows : List (Row R)) : Prop where
  weight : ∀ r ∈ rows, 1e-6 ≤ r.w
  apart : rows.Pairwise fun r r' => 1 ≤ |r'.t - r.t|

theorem Apart.sublist (h : Apart rows) (hs : List.Sublist used rows) : Apart used where
  weight r hr := h.weight r (hs.mem hr)
  apart := h.apart.sublist hs

theorem Apart.spread (h : Apart rows) (hlen : 2 ≤ rows.length) (m : R) :
    1e-12 < (rows.map fun r => r.w * (r.t - m) * (r.t - m)).sum := by
  obtain ⟨r, r', rest, rfl⟩ : ∃ r r' rest, rows = r :: r' :: rest := by
    match rows, hlen with
    | r :: r' :: rest, _ => exact ⟨r, r', rest, rfl⟩
  have hfar : 1 ≤ |r'.t - r.t| := (List.pairwise_cons.mp h.apart).1 r' List.mem_cons_self
  have hhalf := le_spread (w := fun r : Row R => r.w) (t := fun r => r.t)
    (show (0 : R) ≤ 1e-6 by norm_num) h.weight hfar m
  exact lt_of_lt_of_le (by norm_num) hhalf

/-- **A fit loses the line its rows lose.** -/
theorem wlsFit_slewed (h : Apart rows) (α β : R) :
    wlsFit (rows.map (Row.slewed α β)) = (wlsFit rows).map (Fit.slewed α β) := by
  unfold wlsFit
  rw [List.length_map]
  split
  · rfl
  · next hlen =>
    simp only [List.map_map, Function.comp_def, Row.slewed]
    split
    · rfl
    · next hpos =>
      have hsw : (rows.map fun r => r.w).sum ≠ 0 := (not_le.mp hpos).ne'
      have hspread := h.spread (by omega) (mean (fun r : Row R => r.w) (fun r => r.t) rows)
      unfold mean at hspread
      have hsxy := covariance_sub_line (w := fun r : Row R => r.w) (t := fun r => r.t)
        (y := fun r => r.offset) hsw α β
      have hsy := sum_sub_line (fun r : Row R => r.w) (fun r => r.t) (fun r => r.offset) rows α β
      unfold mean at hsxy
      rw [Option.map_some, hsxy, hsy, if_pos hspread, if_pos hspread]
      unfold Fit.slewed
      congr 2
      · field_simp
      · have hne := (lt_trans (show (0 : R) < 1e-12 by norm_num) hspread).ne'
        rw [sub_div, mul_div_cancel_right₀ _ hne]

/-! ## The passes -/

/-- The rows and their weights, and so all that is read off their residuals. -/
theorem map_resid_slewed (α β : R) (fit : Fit R) (rows : List (Row R)) :
    (rows.map (Row.slewed α β)).map (fit.slewed α β).resid = rows.map fit.resid := by
  rw [List.map_map]
  exact List.map_congr_left fun r _ => resid_slewed α β fit r

theorem residualSd_slewed (std : StdFloat R) (α β : R) (fit : Fit R) (rows : List (Row R)) :
    residualSd std (rows.map (Row.slewed α β)) (fit.slewed α β) = residualSd std rows fit := by
  unfold residualSd
  rw [List.length_map, List.map_map, List.map_map]
  congr 2
  refine List.map_congr_left ?_
  intro r _
  simp only [Function.comp_apply, resid_slewed]
  rfl

theorem seOffset_slewed (std : StdFloat R) (now α β : R) (rows : List (Row R)) (fit : Fit R) :
    seOffset std now (rows.map (Row.slewed α β)) (fit.slewed α β) = seOffset std now rows fit := by
  unfold seOffset
  rw [residualSd_slewed]
  rfl

/-- The search settles on the same length. -/
theorem bestLenFrom_slewed (std : StdFloat R) (now α β : R) (h : Apart used) :
    ∀ (fuel len : ℕ) (best : WithTop R) (bestLen : ℕ),
      bestLenFrom std now (used.map (Row.slewed α β)) fuel len best bestLen =
        bestLenFrom std now used fuel len best bestLen
  | 0, _, _, _ => rfl
  | fuel + 1, len, best, bestLen => by
    have ih := bestLenFrom_slewed std now α β h fuel
    have htail : Apart (used.drop (used.length - len)) := h.sublist (List.drop_sublist _ _)
    unfold bestLenFrom
    dsimp only
    rw [List.length_map, ← List.map_drop, wlsFit_slewed htail]
    split
    · cases wlsFit (used.drop (used.length - len)) with
      | none => exact ih _ _ _
      | some f =>
        rw [Option.map_some]
        dsimp only
        rw [seOffset_slewed, Fit.slewed_sxx, Fit.slewed_sw, ih, ih]
    · rfl

theorem adaptWindow_slewed (std : StdFloat R) (now α β : R) (h : Apart used) (fit : Fit R) :
    adaptWindow std now (used.map (Row.slewed α β)) (fit.slewed α β) =
      (adaptWindow std now used fit).map (slewedPair α β) := by
  unfold adaptWindow
  dsimp only
  rw [List.length_map, seOffset_slewed, Fit.slewed_sxx, Fit.slewed_sw,
    bestLenFrom_slewed std now α β h]
  generalize bestLenFrom std now used used.length 8 _ used.length = bestLen
  split
  · rw [← List.map_drop, wlsFit_slewed (h.sublist (List.drop_sublist _ _)), Option.map_map,
      Option.map_map]
    rfl
  · rfl

theorem residualsWellMixed_slewed (α β : R) (rows : List (Row R)) (fit : Fit R) :
    residualsWellMixed (rows.map (Row.slewed α β)) (fit.slewed α β) =
      residualsWellMixed rows fit := by
  unfold residualsWellMixed
  rw [List.length_map, map_resid_slewed]

theorem residualHalfGapAndMad_slewed (α β : R) (rows : List (Row R)) (fit : Fit R) :
    residualHalfGapAndMad (rows.map (Row.slewed α β)) (fit.slewed α β) =
      residualHalfGapAndMad rows fit := by
  unfold residualHalfGapAndMad
  rw [List.length_map, map_resid_slewed]

theorem dropHistory_slewed (α β : R) : ∀ (passes : ℕ) {win : List (Row R)} (fit : Fit R),
    Apart win → dropHistory passes (win.map (Row.slewed α β)) (fit.slewed α β) =
      slewedPair α β (dropHistory passes win fit)
  | 0, _, _, _ => rfl
  | passes + 1, win, fit, h => by
    have hrest : Apart (win.drop (max (win.length / 4) 2)) := h.sublist (List.drop_sublist _ _)
    unfold dropHistory
    dsimp only
    rw [List.length_map, residualsWellMixed_slewed, residualHalfGapAndMad_slewed, ← List.map_drop,
      wlsFit_slewed hrest]
    split
    · rfl
    · split
      · rfl
      · split
        · rfl
        · cases wlsFit (win.drop (max (win.length / 4) 2)) with
          | none => rfl
          | some refit => exact dropHistory_slewed α β passes refit hrest

/-- The rows pass 2 keeps are the same ones. -/
theorem keptRows_slewed (α β : R) (used : List (Row R)) (fit : Fit R) (threshold : R)
    (mask : Option (BitVec 64)) :
    keptRows (used.map (Row.slewed α β)) (fit.slewed α β) threshold mask =
      (keptRows used fit threshold mask).map (Row.slewed α β) := by
  cases mask with
  | some keep =>
    unfold keptRows
    dsimp only
    rw [List.zipIdx_map, List.filter_map, List.map_map, List.map_map]
    rfl
  | none =>
    have hsame : (fun p : Row R × ℕ => decide (used.length - 3 ≤ p.2) ||
        decide (|(fit.slewed α β).resid p.1| ≤ threshold)) ∘ Prod.map (Row.slewed α β) id =
          fun p => decide (used.length - 3 ≤ p.2) || decide (|fit.resid p.1| ≤ threshold) := by
      funext p
      simp
    unfold keptRows
    dsimp only
    rw [List.zipIdx_map, List.filter_map, List.map_map, List.map_map, List.length_map, hsame]
    rfl

theorem spikeKeepMask_slewed (α β : R) (used : List (Row R)) (fit : Fit R) :
    spikeKeepMask (used.map (Row.slewed α β)) (fit.slewed α β) = spikeKeepMask used fit := by
  have habs : (used.map (Row.slewed α β)).map (fun r => |(fit.slewed α β).resid r|) =
      used.map fun r => |fit.resid r| := by
    rw [List.map_map]
    exact List.map_congr_left fun r _ => congrArg abs (resid_slewed α β fit r)
  unfold spikeKeepMask
  dsimp only
  rw [List.length_map, habs]

theorem trimSpikes_slewed (α β : R) (h : Apart used) (fit : Fit R) :
    trimSpikes (used.map (Row.slewed α β)) (fit.slewed α β) =
      slewedPair α β (trimSpikes used fit) := by
  rw [trimSpikes_eq, trimSpikes_eq, List.length_map, spikeKeepMask_slewed]
  split
  · rcases spikeKeepMask used fit with - | ⟨threshold, mask⟩
    · rfl
    · have hkept := h.sublist (keptRows_sublist used fit threshold mask)
      dsimp only
      rw [keptRows_slewed]
      unfold refitKept
      rw [List.length_map, List.length_map, wlsFit_slewed hkept]
      split
      · cases wlsFit (keptRows used fit threshold mask) <;> rfl
      · rfl
  · rfl

theorem spanOf_slewed (α β : R) (used : List (Row R)) :
    SampleRegister.spanOf (used.map (Row.slewed α β)) = SampleRegister.spanOf used := by
  unfold SampleRegister.spanOf
  rw [List.head?_map, List.getLast?_map]
  cases used.head? <;> cases used.getLast? <;> rfl

namespace SampleRegister

variable {reg : SampleRegister R}

theorem offsetAt_slewed (std : StdFloat R) (reg : SampleRegister R) (minDelay now α β : R)
    (used : List (Row R)) (fit : Fit R) :
    reg.offsetAt std minDelay now (used.map (Row.slewed α β)) (fit.slewed α β) =
      reg.offsetAt std minDelay now used fit - (α + β * now) := by
  have hplain : (fit.slewed α β).a + (fit.slewed α β).b * (now - fit.t0) =
      fit.a + fit.b * (now - fit.t0) - (α + β * now) := by
    unfold Fit.slewed
    ring
  -- whatever the sharper weights, they do not see the offsets
  have hsharp : ∀ weight : Row R → R,
      (if 0 < (used.map weight).sum then
        (used.map fun r => weight r * (r.offset - (α + β * r.t))).sum / (used.map weight).sum +
          (fit.slewed α β).b *
            (now - (used.map fun r => weight r * r.t).sum / (used.map weight).sum)
      else (fit.slewed α β).a + (fit.slewed α β).b * (now - fit.t0)) =
      (if 0 < (used.map weight).sum then
        (used.map fun r => weight r * r.offset).sum / (used.map weight).sum +
          fit.b * (now - (used.map fun r => weight r * r.t).sum / (used.map weight).sum)
      else fit.a + fit.b * (now - fit.t0)) - (α + β * now) := by
    intro weight
    split
    · next hpos =>
      have hne := hpos.ne'
      rw [sum_sub_line weight (fun r => r.t) (fun r => r.offset)]
      unfold Fit.slewed
      field_simp
      ring
    · exact hplain
  unfold offsetAt
  split
  · simp only [List.map_map, Function.comp_def, List.length_map, Row.slewed]
    exact hsharp _
  · exact hplain

/-! ## The register -/

theorem rows_slewSamples (std : StdFloat R) (hdensity : reg.slopeDensityWeighting = false)
    (hl : reg.head ≤ reg.samples.length) (tChange dfreqPpm doffset : R) :
    (reg.slewSamples tChange dfreqPpm doffset).rows std =
      (reg.rows std).map
        (Row.slewed (doffset - dfreqPpm * 1e-6 * tChange) (dfreqPpm * 1e-6)) := by
  rw [rows_eq reg std hdensity,
    rows_eq (reg.slewSamples tChange dfreqPpm doffset) std hdensity, window_slewSamples hl,
    List.zip_map_left, List.map_map, List.map_map]
  refine List.map_congr_left ?_
  intro p _
  simp only [Function.comp_apply, Prod.map, reexpress, Row.slewed, id]
  congr 1
  ring

theorem length_slewSamples (hl : reg.head ≤ reg.samples.length) (tChange dfreqPpm doffset : R) :
    (reg.slewSamples tChange dfreqPpm doffset).samples.length = reg.samples.length := by
  simp only [slewSamples, List.length_append, List.length_take, List.length_map, List.length_drop]
  omega

theorem len_slewSamples (hl : reg.head ≤ reg.samples.length) (tChange dfreqPpm doffset : R) :
    (reg.slewSamples tChange dfreqPpm doffset).len = reg.len :=
  congrArg (· - reg.head) (length_slewSamples hl tChange dfreqPpm doffset)

/-- The delays of the stored samples stay, so the weights computed from them do. -/
theorem delay_slewSamples (reg : SampleRegister R) (tChange dfreqPpm doffset : R) (i : ℕ) :
    ((reg.slewSamples tChange dfreqPpm doffset).samples[i]?).map (fun s => s.delay) =
      (reg.samples[i]?).map fun s => s.delay := by
  have hdelays : (reg.slewSamples tChange dfreqPpm doffset).samples.map (fun s => s.delay) =
      reg.samples.map fun s => s.delay := by
    unfold slewSamples
    rw [slewSample_eq_reexpress, List.map_append, List.map_map]
    conv_rhs => rw [← List.take_append_drop reg.head reg.samples, List.map_append]
    rfl
  rw [← List.getElem?_map, hdelays, List.getElem?_map]

theorem syncWeights_slewSamples (reg : SampleRegister R) (hl : reg.head ≤ reg.samples.length)
    (tChange dfreqPpm doffset minDelay floor : R) :
    (reg.slewSamples tChange dfreqPpm doffset).syncWeights minDelay floor =
      (reg.syncWeights minDelay floor).slewSamples tChange dfreqPpm doffset := by
  have hweights : ((reg.slewSamples tChange dfreqPpm doffset).syncWeights minDelay floor).weights =
      (reg.syncWeights minDelay floor).weights := by
    unfold syncWeights
    dsimp only
    rw [length_slewSamples hl]
    refine List.ext_getElem? ?_
    intro i
    have hdelay := reg.delay_slewSamples tChange dfreqPpm doffset i
    rw [List.getElem?_mapIdx, List.getElem?_mapIdx]
    refine Option.map_congr ?_
    intro w _
    cases hslewed : (reg.slewSamples tChange dfreqPpm doffset).samples[i]? with
    | none =>
      rw [hslewed] at hdelay
      rw [Option.map_eq_none_iff.mp hdelay.symm]
    | some s' =>
      rw [hslewed] at hdelay
      obtain ⟨s, hs, hsame⟩ := Option.map_eq_some_iff.mp hdelay.symm
      rw [hs]
      dsimp only
      rw [hsame]
      rfl
  unfold syncWeights slewSamples at hweights ⊢
  dsimp only at hweights ⊢
  rw [hweights]

/-- What is computed anew is what was there. -/
theorem syncWeights_syncWeights (hl : reg.head < reg.samples.length) (minDelay floor : R) :
    (reg.syncWeights minDelay floor).syncWeights minDelay floor =
      reg.syncWeights minDelay floor := by
  have hweights : ((reg.syncWeights minDelay floor).syncWeights minDelay floor).weights =
      (reg.syncWeights minDelay floor).weights := by
    unfold syncWeights
    dsimp only
    rw [if_neg (not_not.mpr rfl)]
    refine List.ext_getElem? ?_
    intro i
    rw [List.getElem?_mapIdx, List.getElem?_mapIdx, Option.map_map]
    refine Option.map_congr ?_
    intro w _
    rw [Function.comp_apply]
    cases reg.samples[i]? with
    | none => rfl
    | some s =>
      dsimp only
      by_cases hlast : reg.samples.length - 1 ≤ i
      · -- the newest weight was computed the first time as well
        rw [if_pos hlast, if_pos]
        split <;> omega
      · rw [if_neg hlast]
  unfold syncWeights at hweights ⊢
  dsimp only at hweights ⊢
  rw [hweights]

/-- Live samples apart in time, with weights computed for them, make rows that are apart. -/
theorem rows_apart (std : StdFloat R) (hdensity : reg.slopeDensityWeighting = false)
    (hapart : reg.window.Pairwise fun s s' => 1 ≤ |s'.t - s.t|)
    (hw : ∀ w ∈ reg.liveWeights, 1e-6 ≤ w) : Apart (reg.rows std) := by
  rw [rows_eq reg std hdensity]
  constructor
  · intro r hr
    obtain ⟨⟨s, w⟩, hp, rfl⟩ := List.mem_map.mp hr
    exact hw w (List.of_mem_zip hp).2
  · have hfst := hapart.sublist (map_fst_zip_sublist reg.window reg.liveWeights)
    rw [List.pairwise_map] at hfst ⊢
    exact hfst

/-! ## The estimate -/

/-- What `regress` reports of the rows and the fit that survive. -/
def report (std : StdFloat R) (reg : SampleRegister R) (minDelay now : R)
    (result : List (Row R) × Fit R) : RegressEstimate R where
  offset := reg.offsetAt std minDelay now result.1 result.2
  freqPpm := if 4 ≤ result.1.length ∧ 8.0 ≤ spanOf result.1 then some (result.2.b * 1e6) else none
  offsetSd := residualSd std result.1 result.2
  nUsed := result.1.length
  span := spanOf result.1

/-- The rows and the fit that survive, from a first fit on. -/
def survivors (std : StdFloat R) (reg : SampleRegister R) (now : R) (used : List (Row R))
    (fit : Fit R) : Option (List (Row R) × Fit R) :=
  (if reg.adaptiveWindow ∧ 8 ≤ used.length then adaptWindow std now used fit
    else some (used, fit)).map fun result =>
      let result := dropHistory 4 result.1 result.2
      trimSpikes result.1 result.2

theorem regressRows_eq (std : StdFloat R) (reg : SampleRegister R) (minDelay now : R) :
    reg.regressRows std minDelay now =
      (wlsFit (reg.rows std)).bind fun fit =>
        (survivors std reg now (reg.rows std) fit).map (reg.report std minDelay now) := by
  unfold regressRows survivors
  cases hfit : wlsFit (reg.rows std) with
  | none => simp only [hfit, Option.bind_eq_bind, Option.bind_none]
  | some fit =>
    simp only [hfit, Option.bind_eq_bind, Option.bind_some]
    split
    · cases adaptWindow std now (reg.rows std) fit <;> rfl
    · rfl

theorem dropHistory_sublist : ∀ (passes : ℕ) (win : List (Row R)) (fit : Fit R),
    List.Sublist (dropHistory passes win fit).1 win
  | 0, win, _ => List.Sublist.refl win
  | passes + 1, win, fit => by
    unfold dropHistory
    dsimp only
    split
    · exact List.Sublist.refl win
    · split
      · exact List.Sublist.refl win
      · split
        · exact List.Sublist.refl win
        · split
          · exact (dropHistory_sublist passes _ _).trans (List.drop_sublist _ _)
          · exact List.drop_sublist _ _

theorem adaptWindow_sublist {std : StdFloat R} {result : List (Row R) × Fit R}
    (h : adaptWindow std now used fit = some result) : List.Sublist result.1 used := by
  unfold adaptWindow at h
  dsimp only at h
  generalize bestLenFrom std now used used.length 8 _ used.length = bestLen at h
  split at h
  · obtain ⟨fit', -, rfl⟩ := Option.map_eq_some_iff.mp h
    exact List.drop_sublist _ _
  · obtain rfl := Option.some.inj h
    exact List.Sublist.refl used

/-- The passes are the same on slewed rows. -/
theorem survivors_slewed (std : StdFloat R) (reg : SampleRegister R) (now α β : R)
    (h : Apart used) (fit : Fit R) :
    survivors std reg now (used.map (Row.slewed α β)) (fit.slewed α β) =
      (survivors std reg now used fit).map (slewedPair α β) := by
  have hpasses : ∀ result : List (Row R) × Fit R, List.Sublist result.1 used →
      trimSpikes (dropHistory 4 (slewedPair α β result).1 (slewedPair α β result).2).1
          (dropHistory 4 (slewedPair α β result).1 (slewedPair α β result).2).2 =
        slewedPair α β (trimSpikes (dropHistory 4 result.1 result.2).1
          (dropHistory 4 result.1 result.2).2) := by
    intro result hs
    have hdropped := h.sublist ((dropHistory_sublist 4 result.1 result.2).trans hs)
    rw [slewedPair, dropHistory_slewed α β 4 result.2 (h.sublist hs)]
    exact trimSpikes_slewed α β hdropped _
  unfold survivors
  rw [List.length_map, adaptWindow_slewed std now α β h]
  split
  · cases hadapt : adaptWindow std now used fit with
    | none => rfl
    | some result => exact congrArg some (hpasses result (adaptWindow_sublist hadapt))
  · exact congrArg some (hpasses (used, fit) (List.Sublist.refl used))

/-- An estimate without the line. -/
def slewedEstimate (α β now : R) (e : RegressEstimate R) : RegressEstimate R :=
  { e with offset := e.offset - (α + β * now), freqPpm := e.freqPpm.map fun f => f - β * 1e6 }

theorem report_slewed (std : StdFloat R) (reg : SampleRegister R) (minDelay now α β : R)
    (result : List (Row R) × Fit R) :
    reg.report std minDelay now (slewedPair α β result) =
      slewedEstimate α β now (reg.report std minDelay now result) := by
  unfold report slewedEstimate slewedPair
  dsimp only
  rw [offsetAt_slewed, residualSd_slewed, spanOf_slewed, List.length_map]
  congr 1
  split
  · show some ((result.2.b - β) * 1e6) = some (result.2.b * 1e6 - β * 1e6)
    rw [sub_mul]
  · rfl

/-- **The regression over slewed rows is the slewed regression.** -/
theorem regressRows_slewSamples (reg : SampleRegister R) (std : StdFloat R)
    (hdensity : reg.slopeDensityWeighting = false)
    (hl : reg.head ≤ reg.samples.length) (h : Apart (reg.rows std))
    (minDelay now tChange dfreqPpm doffset : R) :
    (reg.slewSamples tChange dfreqPpm doffset).regressRows std minDelay now =
      (reg.regressRows std minDelay now).map
        (slewedEstimate (doffset - dfreqPpm * 1e-6 * tChange) (dfreqPpm * 1e-6) now) := by
  rw [regressRows_eq, regressRows_eq, rows_slewSamples std hdensity hl, wlsFit_slewed h]
  cases wlsFit (reg.rows std) with
  | none => rfl
  | some fit =>
    rw [Option.map_some, Option.bind_some, Option.bind_some]
    rw [show survivors std (reg.slewSamples tChange dfreqPpm doffset) = survivors std reg from rfl,
      survivors_slewed std reg now _ _ h, Option.map_map, Option.map_map]
    refine Option.map_congr ?_
    intro result _
    exact report_slewed std reg minDelay now _ _ result

/-! ## Registers regressed after every push -/

/-- The settings of a register. -/
inductive Setting (R : Type) where
  | weightFloorRatio (ratio : R)
  | offsetWeightFloorRatio (ratio : R)
  | slopeDensityWeighting (on : Bool)
  | adaptiveWindow (on : Bool)
  | offsetWeightDispersionK (k : R)
  | offsetAgeHalflifeS (halflife : WithTop R)

def configure (reg : SampleRegister R) : Setting R → SampleRegister R
  | .weightFloorRatio ratio => reg.setWeightFloorRatio ratio
  | .offsetWeightFloorRatio ratio => reg.setOffsetWeightFloorRatio ratio
  | .slopeDensityWeighting on => reg.setSlopeDensityWeighting on
  | .adaptiveWindow on => reg.setAdaptiveWindow on
  | .offsetWeightDispersionK k => reg.setOffsetWeightDispersionK k
  | .offsetAgeHalflifeS halflife => reg.setOffsetAgeHalflifeS halflife

/-- A register on which `regress` was called after every `push`, and anything else at any time. -/
inductive Regressed (std : StdFloat R) : SampleRegister R → Prop where
  | new (capacity : ℕ) : Regressed std (new capacity)
  | push {reg : SampleRegister R} (h : Regressed std reg) (s : Sample R) (now : R) :
      Regressed std ((reg.push s).regress std now).1
  | regress {reg : SampleRegister R} (h : Regressed std reg) (now : R) :
      Regressed std (reg.regress std now).1
  | slewSamples {reg : SampleRegister R} (h : Regressed std reg) (tChange dfreqPpm doffset : R) :
      Regressed std (reg.slewSamples tChange dfreqPpm doffset)
  | clear {reg : SampleRegister R} (h : Regressed std reg) : Regressed std reg.clear
  | configure {reg : SampleRegister R} (h : Regressed std reg) (setting : Setting R) :
      Regressed std (reg.configure setting)

/-- Once weights were computed there are enough samples, and all but the `recent` newest of them
carry a weight that was. -/
structure Weighted (reg : SampleRegister R) (recent : ℕ) : Prop where
  len : reg.weightsFor ≠ none → 3 ≤ reg.len
  weight : reg.weightsFor ≠ none →
    ∀ w ∈ reg.liveWeights.take (reg.liveWeights.length - recent), 1e-6 ≤ w

theorem le_baseWeight (minDelay floor delay : R) : 1e-6 ≤ baseWeight minDelay floor delay :=
  le_max_right _ _

/-- What a call of `regress` does, where it computes anything. -/
theorem regress_of_tracks (std : StdFloat R) {cap : ℕ} {history : List (Sample R)}
    (ht : Tracks reg cap history) (hlen : 3 ≤ reg.len) (now : R) :
    ∃ minDelay, reg.minDelay = some minDelay ∧ reg.regress std now =
      (reg.syncWeights minDelay (max (minDelay * reg.weightFloorRatio) 1e-9),
        (reg.syncWeights minDelay (max (minDelay * reg.weightFloorRatio) 1e-9)).regressRows std
          minDelay now) := by
  obtain ⟨minDelay, hmin⟩ : ∃ minDelay : R, reg.minDelay = some minDelay := by
    have hne : reg.window.map (fun s => s.delay) ≠ [] := by
      have hpos : 0 < (reg.window.map fun s => s.delay).length := by
        rw [List.length_map, SampleRegister.window, List.length_drop]
        exact lt_of_lt_of_le (by decide) hlen
      exact List.ne_nil_of_length_pos hpos
    rw [ht.minDelay, minimumDelay]
    exact Option.ne_none_iff_exists'.mp fun hnone => hne (List.minimum_eq_top.mp hnone)
  refine ⟨minDelay, hmin, ?_⟩
  unfold regress
  rw [if_neg (by omega), hmin]

theorem syncWeights_weighted {cap : ℕ} {history : List (Sample R)} (ht : Tracks reg cap history)
    (hw : reg.Weighted 1) (minDelay floor : R) :
    ∀ w ∈ (reg.syncWeights minDelay floor).liveWeights, 1e-6 ≤ w := by
  refine syncWeights_forall ht.live ht.weights (fun s _ => le_baseWeight _ _ _) ?_
  intro hfor
  refine hw.weight ?_
  rw [hfor]
  exact Option.some_ne_none _

theorem regress_weighted (std : StdFloat R) {cap : ℕ} {history : List (Sample R)}
    (ht : Tracks reg cap history) (hw : reg.Weighted 1) (now : R) :
    (reg.regress std now).1.Weighted 0 := by
  by_cases hlen : 3 ≤ reg.len
  · obtain ⟨minDelay, -, hregress⟩ := regress_of_tracks std ht hlen now
    rw [hregress]
    refine ⟨fun _ => hlen, fun _ w hmem => ?_⟩
    rw [Nat.sub_zero, List.take_length] at hmem
    exact syncWeights_weighted ht hw _ _ w hmem
  · -- too few samples: none of them has been weighted yet
    have hsame : (reg.regress std now).1 = reg := by
      unfold regress
      rw [if_pos (by omega)]
    rw [hsame]
    exact ⟨fun hfor => hw.len hfor, fun hfor => absurd (hw.len hfor) hlen⟩

theorem push_weighted {cap : ℕ} {history : List (Sample R)} (ht : Tracks reg cap history)
    (hw : reg.Weighted 0) (s : Sample R) : (reg.push s).Weighted 1 := by
  have hfor := (reg.push_settings s).2.2.1
  constructor
  · intro hne
    have hlen := hw.len (hfor ▸ hne)
    have hbefore := ht.length_samples
    have hafter := (push_tracks ht s).length_samples
    rw [List.length_append, List.length_singleton] at hafter
    unfold len at hlen ⊢
    omega
  · intro hne
    refine push_forall (by rw [ht.weights]; exact ht.live) (fun w hmem => ?_) s
    refine hw.weight (hfor ▸ hne) w ?_
    rwa [Nat.sub_zero, List.take_length]

theorem Weighted.mono {m n : ℕ} (hw : reg.Weighted m) (hmn : m ≤ n) : reg.Weighted n :=
  ⟨hw.len, fun hfor w hmem => hw.weight hfor w (List.take_subset_take_left _ (by omega) hmem)⟩

theorem slewSamples_weighted {recent : ℕ} (hl : reg.head ≤ reg.samples.length)
    (hw : reg.Weighted recent) (tChange dfreqPpm doffset : R) :
    (reg.slewSamples tChange dfreqPpm doffset).Weighted recent := by
  refine ⟨fun hfor => ?_, hw.weight⟩
  rw [len_slewSamples hl]
  exact hw.len hfor

/-- No weights are kept, or claimed, of no samples. -/
theorem clear_weighted (reg : SampleRegister R) (recent : ℕ) : reg.clear.Weighted recent :=
  ⟨fun hfor => absurd rfl hfor, fun hfor => absurd rfl hfor⟩

theorem configure_window (reg : SampleRegister R) (setting : Setting R) :
    (reg.configure setting).window = reg.window := by
  cases setting <;> rfl

theorem configure_tracks {cap : ℕ} {history : List (Sample R)} (ht : Tracks reg cap history)
    (setting : Setting R) : Tracks (reg.configure setting) cap history := by
  cases setting <;>
    exact ⟨ht.capacity, ht.pos, ht.window, ht.head, ht.live, ht.weights, ht.minDelay⟩

theorem configure_weighted {recent : ℕ} (hw : reg.Weighted recent) (setting : Setting R) :
    (reg.configure setting).Weighted recent := by
  cases setting <;> exact ⟨hw.len, hw.weight⟩

/-- **Regressed after every push, a register has a weight for every sample.** -/
theorem Regressed.weighted {std : StdFloat R} (h : Regressed std reg) :
    (∃ cap history, Tracks reg cap history) ∧ reg.Weighted 0 := by
  induction h with
  | new capacity =>
    exact ⟨⟨_, _, new_tracks capacity⟩, fun hfor => absurd rfl hfor, fun hfor => absurd rfl hfor⟩
  | push h s now ih =>
    obtain ⟨⟨cap, history, ht⟩, hw⟩ := ih
    have hpushed := push_tracks ht s
    exact ⟨⟨cap, _, regress_tracks hpushed std now⟩,
      regress_weighted std hpushed (push_weighted ht hw s) now⟩
  | regress h now ih =>
    obtain ⟨⟨cap, history, ht⟩, hw⟩ := ih
    exact ⟨⟨cap, _, regress_tracks ht std now⟩,
      regress_weighted std ht (hw.mono (Nat.zero_le 1)) now⟩
  | slewSamples h tChange dfreqPpm doffset ih =>
    obtain ⟨⟨cap, history, ht⟩, hw⟩ := ih
    exact ⟨⟨cap, _, slewSamples_tracks ht tChange dfreqPpm doffset⟩,
      slewSamples_weighted ht.live hw tChange dfreqPpm doffset⟩
  | clear h ih =>
    obtain ⟨⟨cap, history, ht⟩, -⟩ := ih
    exact ⟨⟨cap, _, clear_tracks ht⟩, clear_weighted _ 0⟩
  | configure h setting ih =>
    obtain ⟨⟨cap, history, ht⟩, hw⟩ := ih
    exact ⟨⟨cap, history, configure_tracks ht setting⟩, configure_weighted hw setting⟩

/-- **Slewing the history slews the estimate**, whatever windows and trims the regression went
through: the offset and the frequency move with the clock, and nothing else moves. -/
theorem slew_estimate {std : StdFloat R} (hreg : Regressed std reg)
    (hdensity : reg.slopeDensityWeighting = false)
    (hapart : reg.window.Pairwise fun s s' => 1 ≤ |s'.t - s.t|) {now : R}
    {e : RegressEstimate R} (he : (reg.regress std now).2 = some e)
    (tChange dfreqPpm doffset : R) :
    ∃ e', (((reg.regress std now).1.slewSamples tChange dfreqPpm doffset).regress std now).2 =
        some e' ∧
      e'.offset = e.offset - (doffset + dfreqPpm * 1e-6 * (now - tChange)) ∧
      e'.freqPpm = e.freqPpm.map (fun f => f - dfreqPpm) ∧
      e'.offsetSd = e.offsetSd ∧ e'.nUsed = e.nUsed ∧ e'.span = e.span := by
  obtain ⟨⟨cap, history, ht⟩, hw⟩ := hreg.weighted
  have hlen : 3 ≤ reg.len := by
    by_contra hshort
    unfold regress at he
    rw [if_pos (by omega)] at he
    cases he
  obtain ⟨minDelay, hmin, hregress⟩ := regress_of_tracks std ht hlen now
  let synced := reg.syncWeights minDelay (max (minDelay * reg.weightFloorRatio) 1e-9)
  have hsynced : Tracks synced cap history := syncWeights_tracks ht _ _
  have hslewed := slewSamples_tracks hsynced tChange dfreqPpm doffset
  have hrows : Apart (synced.rows std) :=
    rows_apart std hdensity hapart (syncWeights_weighted ht (hw.mono (Nat.zero_le 1)) _ _)
  -- the second call computes with the same minimum delay and the same weights
  obtain ⟨minDelay', hmin', hagain⟩ := regress_of_tracks std hslewed
    (by rw [len_slewSamples hsynced.live]; exact hlen) now
  obtain rfl : minDelay = minDelay' := Option.some.inj (hmin.symm.trans hmin')
  have hlive : reg.head < reg.samples.length := by
    unfold len at hlen
    omega
  have hweights : (synced.slewSamples tChange dfreqPpm doffset).syncWeights minDelay
      (max (minDelay * (synced.slewSamples tChange dfreqPpm doffset).weightFloorRatio) 1e-9) =
      synced.slewSamples tChange dfreqPpm doffset :=
    (syncWeights_slewSamples synced hsynced.live tChange dfreqPpm doffset minDelay _).trans
      (congrArg (fun r => slewSamples r tChange dfreqPpm doffset)
        (syncWeights_syncWeights hlive minDelay _))
  have hsyncedEst : synced.regressRows std minDelay now = some e := by
    rw [hregress] at he
    exact he
  refine ⟨slewedEstimate (doffset - dfreqPpm * 1e-6 * tChange) (dfreqPpm * 1e-6) now e, ?_, ?_, ?_,
    rfl, rfl, rfl⟩
  · rw [hregress]
    show ((synced.slewSamples tChange dfreqPpm doffset).regress std now).2 = _
    rw [hagain, hweights, regressRows_slewSamples synced std hdensity hsynced.live hrows,
      hsyncedEst]
    rfl
  · show e.offset - _ = _
    ring
  · show e.freqPpm.map _ = _
    refine Option.map_congr ?_
    intro f _
    ring

/-! ### Twelve samples, seven of which are used -/

/-- A sample comes: it is pushed, and the register regressed. -/
def attend (std : StdFloat R) (reg : SampleRegister R) (s : Sample R) : SampleRegister R :=
  ((reg.push s).regress std s.t).1

theorem Regressed.foldl {std : StdFloat R} (h : Regressed std reg) (samples : List (Sample R)) :
    Regressed std (samples.foldl (attend std) reg) := by
  induction samples generalizing reg with
  | nil => exact h
  | cons s samples ih => exact ih (h.push s s.t)

/-- The selection by a sort that `decide` runs. -/
theorem selectNth_eq (xs : List R) (mid : ℕ) :
    selectNth xs mid = ((xs.insertionSort (· ≤ ·))[mid]?).getD 0 := by
  rw [selectNth, List.mergeSort_eq_insertionSort]

/-- A sample every two seconds: the first three are from before the clock moved by half a second,
and the ninth is a spike. -/
def spikedSample (i : ℕ) : Sample ℚ :=
  let base : ℚ := if i < 3 then 1 / 2 else if i = 8 then 1 / 4 else 0
  { t := 2 * i, offset := base + (if i % 2 = 0 then 1 else -1) / 1000, delay := 1 / 100,
    dispersion := 0 }

def idFloat : StdFloat ℚ := ⟨id, id, fun _ _ => none⟩

def twelveSamples : SampleRegister ℚ :=
  ((List.range 12).map spikedSample).foldl (attend idFloat) (new 16)

/-- The window takes four samples away, and the trim the spike. -/
theorem twelveSamples_nUsed :
    (twelveSamples.regress idFloat 24).2.map (fun e => e.nUsed) = some 7 := by
  unfold regress regressRows trimSpikes spikeKeepMask spikeThresholdFrom
  simp only [selectNth_eq]
  decide +kernel

theorem slew_estimate_twelve : ∃ e e',
    (twelveSamples.regress idFloat 24).2 = some e ∧ e.nUsed = 7 ∧
      (((twelveSamples.regress idFloat 24).1.slewSamples 2 100 1).regress idFloat 24).2 = some e' ∧
      e'.offset = e.offset - (1 + 100 * 1e-6 * (24 - 2)) ∧
      e'.freqPpm = e.freqPpm.map (fun f => f - 100) ∧
      e'.offsetSd = e.offsetSd ∧ e'.nUsed = 7 ∧ e'.span = e.span := by
  obtain ⟨e, he, hused⟩ := Option.map_eq_some_iff.mp twelveSamples_nUsed
  obtain ⟨e', he', hoffset, hfreq, hsd, hused', hspan⟩ :=
    slew_estimate (Regressed.foldl (.new 16) _) (by decide +kernel) (by decide +kernel) he 2 100 1
  exact ⟨e, e', he, hused, he', hoffset, hfreq, hsd, hused'.trans hused, hspan⟩

end SampleRegister

end RustyTime
