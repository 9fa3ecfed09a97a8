import Mathlib.Data.List.TakeDrop
import RustyTime.Infra.LeastSquares
import RustyTime.Infra.Mask
import RustyTime.Properties.Filter

/-!
# The regression is exact on a line

When the stored samples lie on a line, share one delay and are at least a second apart, every
row has weight 1 and every fit of every pass goes through the line, whichever rows the passes
keep. So does the estimate.

* `wlsFit_straight` — one fit
* `adaptWindow_exact`, `dropHistory_exact`, `trimSpikes_exact`, `offsetAt_exact` — the passes
* `regress_straight` — the estimate
-/

namespace RustyTime

open RustyTime.LeastSquares Infra.Mask

set_option linter.unusedSectionVars false

variable {R : Type} [Field R] [LinearOrder R] [IsStrictOrderedRing R]
  {value slope now delay : R} {rows used : List (Row R)} {fit : Fit R}

/-! ## Rows on a line -/

/-- Rows of unit weight and one delay on the line through `value` at `now`, a second apart. -/
structure Straight (value slope now delay : R) (rows : List (Row R)) : Prop where
  line : ∀ r ∈ rows, r.offset = value + slope * (r.t - now)
  weight : ∀ r ∈ rows, r.w = 1
  delay : ∀ r ∈ rows, r.delay = delay
  spaced : rows.Pairwise fun r r' => r.t + 1 ≤ r'.t

/-- A fit through that line. -/
structure Through (value slope now : R) (fit : Fit R) : Prop where
  b : fit.b = slope
  a : fit.a = value + slope * (fit.t0 - now)

/-- A working set on the line with a fit through it. -/
structure Exact (value slope now delay : R) (used : List (Row R)) (fit : Fit R) : Prop where
  straight : Straight value slope now delay used
  two : 2 ≤ used.length
  through : Through value slope now fit

theorem Straight.sublist (h : Straight value slope now delay rows)
    (hs : List.Sublist used rows) : Straight value slope now delay used where
  line r hr := h.line r (hs.mem hr)
  weight r hr := h.weight r (hs.mem hr)
  delay r hr := h.delay r (hs.mem hr)
  spaced := h.spaced.sublist hs

theorem sum_ones (h : ∀ r ∈ rows, r.w = 1) : (rows.map fun r => r.w).sum = (rows.length : R) := by
  have hones : rows.map (fun r => r.w) = List.replicate rows.length 1 := by
    rw [List.map_congr_left h, List.map_const']
  rw [hones, List.sum_replicate, nsmul_eq_mul, mul_one]

/-- A line comes out of the fit as it is. -/
theorem wlsFit_straight (h : Straight value slope now delay rows) (hlen : 2 ≤ rows.length) :
    ∃ fit, wlsFit rows = some fit ∧ Through value slope now fit := by
  let sw := (rows.map fun r => r.w).sum
  let t0 := mean (fun r : Row R => r.w) (fun r => r.t) rows
  let sxx := (rows.map fun r => r.w * (r.t - t0) * (r.t - t0)).sum
  have hpos : 0 < sw := by
    show 0 < (rows.map fun r => r.w).sum
    rw [sum_ones h.weight]
    exact_mod_cast (by omega : 0 < rows.length)
  have hline : ∀ r ∈ rows, r.offset = (value - slope * now) + slope * r.t := by
    intro r hr
    rw [h.line r hr]
    ring
  have hsxx : 1e-12 < sxx := by
    obtain ⟨r, r', rest, hrows⟩ : ∃ r r' rest, rows = r :: r' :: rest := by
      match rows, hlen with
      | r :: r' :: rest, _ => exact ⟨r, r', rest, rfl⟩
    have hweight := h.weight
    have hspaced := h.spaced
    rw [hrows] at hweight hspaced
    have hapart : r.t + 1 ≤ r'.t := (List.pairwise_cons.mp hspaced).1 r' List.mem_cons_self
    have hfar : 1 ≤ |r'.t - r.t| := le_abs.mpr (.inl (by linarith))
    have hhalf := le_spread (w := fun r : Row R => r.w) (t := fun r => r.t) zero_le_one
      (fun k hk => (hweight k hk).ge) hfar t0
    rw [← hrows] at hhalf
    show 1e-12 < (rows.map fun r => r.w * (r.t - t0) * (r.t - t0)).sum
    linarith
  have hsxy : (rows.map fun r => r.w * (r.t - t0) * r.offset).sum = slope * sxx :=
    covariance_of_line (y := fun r : Row R => r.offset) hpos.ne' hline
  have hsy : (rows.map fun r => r.w * r.offset).sum / sw = value - slope * now + slope * t0 :=
    mean_of_line (y := fun r : Row R => r.offset) hpos.ne' hline
  have hfit : wlsFit rows = some
      { a := (rows.map fun r => r.w * r.offset).sum / sw
        b := if 1e-12 < sxx
          then (rows.map fun r => r.w * (r.t - t0) * r.offset).sum / sxx else 0
        t0 := t0, sxx := sxx, sw := sw } := by
    unfold wlsFit
    rw [if_neg (by omega)]
    exact if_neg (not_le.mpr hpos)
  refine ⟨_, hfit, ?_, ?_⟩
  · show (if _ then _ else _) = slope
    rw [if_pos hsxx, hsxy, mul_div_cancel_right₀]
    exact (lt_trans (by norm_num) hsxx).ne'
  · show _ / sw = _
    rw [hsy]
    ring

/-! ## The passes -/

/-- The window search keeps at least `m` rows, when its first length does. -/
theorem le_bestLenFrom (std : StdFloat R) (now : R) (used : List (Row R)) {m : ℕ} :
    ∀ (fuel len : ℕ) (best : WithTop R) (bestLen : ℕ), m ≤ len → m ≤ bestLen →
      m ≤ bestLenFrom std now used fuel len best bestLen
  | 0, _, _, _, _, hbest => hbest
  | fuel + 1, len, best, bestLen, hlen, hbest => by
    unfold bestLenFrom
    have hdouble : m ≤ len * 2 := by omega
    split
    · dsimp only
      split
      · split
        · split
          · exact le_bestLenFrom std now used fuel _ _ _ hdouble hlen
          · exact le_bestLenFrom std now used fuel _ _ _ hdouble hbest
        · exact le_bestLenFrom std now used fuel _ _ _ hdouble hbest
      · exact le_bestLenFrom std now used fuel _ _ _ hdouble hbest
    · exact hbest

theorem adaptWindow_exact (std : StdFloat R) (h : Exact value slope now delay used fit) :
    ∃ used' fit', adaptWindow std now used fit = some (used', fit') ∧
      Exact value slope now delay used' fit' := by
  let best : WithTop R := if 0 < fit.sxx ∧ 0 < fit.sw then (seOffset std now used fit : R) else ⊤
  let bestLen := bestLenFrom std now used used.length 8 best used.length
  let rest := used.drop (used.length - bestLen)
  have htwo : 2 ≤ bestLen := le_bestLenFrom std now used _ 8 best _ (by omega) h.two
  show ∃ used' fit', (if bestLen < used.length then (wlsFit rest).map fun fit => (rest, fit)
    else some (used, fit)) = some (used', fit') ∧ _
  by_cases hlt : bestLen < used.length
  · have hrest : Straight value slope now delay rest :=
      h.straight.sublist (List.drop_sublist _ _)
    have hlen : 2 ≤ rest.length := by
      rw [List.length_drop]
      omega
    obtain ⟨fit', hfit', hthrough⟩ := wlsFit_straight hrest hlen
    rw [if_pos hlt, hfit']
    exact ⟨rest, fit', rfl, hrest, hlen, hthrough⟩
  · rw [if_neg hlt]
    exact ⟨used, fit, rfl, h⟩

theorem dropHistory_exact : ∀ (passes : ℕ) {used : List (Row R)} {fit : Fit R},
    Exact value slope now delay used fit →
      Exact value slope now delay (dropHistory passes used fit).1 (dropHistory passes used fit).2
  | 0, _, _, h => h
  | passes + 1, used, fit, h => by
    unfold dropHistory
    split
    · exact h
    · next hlen =>
      split
      · exact h
      · dsimp only
        split
        · exact h
        · -- a quarter of at least eight rows leaves more than two
          have hrest : List.Sublist (used.drop (max (used.length / 4) 2)) used :=
            List.drop_sublist _ _
          have htwo : 2 ≤ (used.drop (max (used.length / 4) 2)).length := by
            rw [List.length_drop]
            omega
          obtain ⟨fit', hfit', hthrough⟩ := wlsFit_straight (h.straight.sublist hrest) htwo
          rw [hfit']
          exact dropHistory_exact passes ⟨h.straight.sublist hrest, htwo, hthrough⟩

theorem map_fst_zip_sublist {α β : Type} : ∀ (xs : List α) (ys : List β),
    List.Sublist ((xs.zip ys).map Prod.fst) xs
  | [], _ => List.nil_sublist _
  | _ :: _, [] => List.nil_sublist _
  | x :: xs, _ :: ys => (map_fst_zip_sublist xs ys).cons_cons x

/-- The refit of pass 2, where enough is kept and something dropped. -/
def refitKept (used : List (Row R)) (fit : Fit R) (kept : List (Row R)) : List (Row R) × Fit R :=
  if 3 ≤ kept.length ∧ kept.length < used.length then
    match wlsFit kept with
    | some refit => (kept, refit)
    | none => (used, fit)
  else (used, fit)

/-- Pass 2 in terms of what it keeps. -/
theorem trimSpikes_eq (used : List (Row R)) (fit : Fit R) :
    trimSpikes used fit =
      if 4 < used.length then
        match spikeKeepMask used fit with
        | none => (used, fit)
        | some (threshold, mask) => refitKept used fit (keptRows used fit threshold mask)
      else (used, fit) := by
  unfold trimSpikes
  split
  · rcases spikeKeepMask used fit with - | ⟨threshold, mask⟩ <;> rfl
  · rfl

theorem map_fst_filter_zipIdx_sublist {α : Type} (xs : List α) (p : α × ℕ → Bool) :
    List.Sublist ((xs.zipIdx.filter p).map Prod.fst) xs := by
  have hsub := (List.filter_sublist (l := xs.zipIdx) (p := p)).map Prod.fst
  rwa [List.zipIdx_map_fst] at hsub

theorem keptRows_sublist (used : List (Row R)) (fit : Fit R) (threshold : R)
    (mask : Option (BitVec 64)) : List.Sublist (keptRows used fit threshold mask) used := by
  cases mask with
  | some keep => exact map_fst_filter_zipIdx_sublist used _
  | none => exact map_fst_filter_zipIdx_sublist used _

/-- A bit of the mask is the walk's test of its row. -/
theorem keepBits_and_shift (protectFrom : ℕ) (threshold : R) (abs : List R) {i : ℕ}
    (hi : i < 64) :
    (keepBits protectFrom threshold abs &&& 1#64 <<< i != 0#64) =
      abs[i]?.any fun v => decide (protectFrom ≤ i) || decide (v ≤ threshold) := by
  rw [and_shift_ne_zero _ hi]
  exact getLsbD_foldl_or_zipIdx
    (fun p : R × ℕ => decide (protectFrom ≤ p.2) || decide (p.1 ≤ threshold)) abs hi

/-- **The mask keeps what the walk keeps.** -/
theorem keptRows_keepBits (used : List (Row R)) (fit : Fit R) (threshold : R)
    (hn : used.length ≤ 64) :
    keptRows used fit threshold
        (some (keepBits (used.length - 3) threshold (used.map fun r => |fit.resid r|))) =
      keptRows used fit threshold none := by
  unfold keptRows
  dsimp only
  congr 1
  refine List.filter_congr fun p hp => ?_
  have hr : used[p.2]? = some p.1 := List.mem_zipIdx_iff_getElem?.mp hp
  have hi := (List.getElem?_eq_some_iff.mp hr).1
  rw [keepBits_and_shift _ _ _ (by omega), List.getElem?_map, hr]
  rfl

/-- A refit over some of the rows, in their order. -/
theorem refitKept_exact {kept : List (Row R)} (h : Exact value slope now delay used fit)
    (hs : List.Sublist kept used) :
    Exact value slope now delay (refitKept used fit kept).1 (refitKept used fit kept).2 := by
  unfold refitKept
  by_cases hkept : 3 ≤ kept.length ∧ kept.length < used.length
  · have htwo : 2 ≤ kept.length := by omega
    obtain ⟨fit', hfit', hthrough⟩ := wlsFit_straight (h.straight.sublist hs) htwo
    rw [if_pos hkept, hfit']
    exact ⟨h.straight.sublist hs, htwo, hthrough⟩
  · rw [if_neg hkept]
    exact h

theorem trimSpikes_exact (h : Exact value slope now delay used fit) :
    Exact value slope now delay (trimSpikes used fit).1 (trimSpikes used fit).2 := by
  rw [trimSpikes_eq]
  split
  · rcases spikeKeepMask used fit with - | ⟨threshold, mask⟩
    · exact h
    · exact refitKept_exact h (keptRows_sublist used fit threshold mask)
  · exact h

namespace SampleRegister

variable {reg : SampleRegister R}

/-- At the minimum delay the weight is 1. -/
theorem baseWeight_self {floor : R} (hf : 0 < floor) : baseWeight delay floor delay = 1 := by
  unfold baseWeight
  rw [sub_self, max_self, zero_add]
  dsimp only
  rw [div_self hf.ne', mul_one]
  exact max_eq_left (by norm_num)

theorem offsetAt_exact (std : StdFloat R) (hage : reg.offsetAgeHalflifeS = ⊤)
    (h : Exact value slope now delay used fit) :
    reg.offsetAt std delay now used fit = value := by
  have hplain : fit.a + fit.b * (now - fit.t0) = value := by
    rw [h.through.a, h.through.b]
    ring
  have hline : ∀ r ∈ used, r.offset = (value - slope * now) + slope * r.t := by
    intro r hr
    rw [h.straight.line r hr]
    ring
  -- the sharper floor is positive, so at one delay the sharper weights are 1 as well
  have hsharp : ∀ floor : R, 0 < floor →
      (if 0 < (used.map fun r => baseWeight delay floor r.delay).sum then
        (used.map fun r => baseWeight delay floor r.delay * r.offset).sum /
            (used.map fun r => baseWeight delay floor r.delay).sum +
          fit.b * (now - (used.map fun r => baseWeight delay floor r.delay * r.t).sum /
            (used.map fun r => baseWeight delay floor r.delay).sum)
      else fit.a + fit.b * (now - fit.t0)) = value := by
    intro floor hfloor
    split
    · next hpos =>
      have hmean := mean_of_line (w := fun r : Row R => baseWeight delay floor r.delay)
        (t := fun r => r.t) hpos.ne' hline
      rw [hmean, h.through.b]
      show _ + slope * (now - mean _ _ used) = value
      ring
    · exact hplain
  unfold offsetAt
  split
  · simp only [hage]
    refine hsharp _ ?_
    split
    · exact lt_max_of_lt_right (by norm_num)
    · exact lt_max_of_lt_right (by norm_num)
  · exact hplain

theorem regressRows_exact (std : StdFloat R) (hage : reg.offsetAgeHalflifeS = ⊤)
    (hrows : Straight value slope now delay (reg.rows std)) (hlen : 2 ≤ (reg.rows std).length) :
    ∃ est, reg.regressRows std delay now = some est ∧ est.offset = value ∧
      ∀ f, est.freqPpm = some f → f = slope * 1e6 := by
  obtain ⟨fit, hfit, hthrough⟩ := wlsFit_straight hrows hlen
  have hexact : Exact value slope now delay (reg.rows std) fit := ⟨hrows, hlen, hthrough⟩
  obtain ⟨used, fit', hadapt, hexact'⟩ : ∃ used fit',
      (if reg.adaptiveWindow ∧ 8 ≤ (reg.rows std).length
        then adaptWindow std now (reg.rows std) fit else some (reg.rows std, fit))
          = some (used, fit') ∧ Exact value slope now delay used fit' := by
    split
    · exact adaptWindow_exact std hexact
    · exact ⟨_, _, rfl, hexact⟩
  have hfinal := trimSpikes_exact (dropHistory_exact 4 hexact')
  let spiked := trimSpikes (dropHistory 4 used fit').1 (dropHistory 4 used fit').2
  let est : RegressEstimate R :=
    { offset := reg.offsetAt std delay now spiked.1 spiked.2
      freqPpm := if 4 ≤ spiked.1.length ∧ 8.0 ≤ spanOf spiked.1 then some (spiked.2.b * 1e6)
        else none
      offsetSd := residualSd std spiked.1 spiked.2
      nUsed := spiked.1.length
      span := spanOf spiked.1 }
  have hest : reg.regressRows std delay now = some est := by
    unfold regressRows
    simp only [hfit, Option.bind_eq_bind, Option.bind_some]
    by_cases hlong : reg.adaptiveWindow ∧ 8 ≤ (reg.rows std).length
    · rw [if_pos hlong] at hadapt ⊢
      rw [hadapt]
      rfl
    · rw [if_neg hlong] at hadapt ⊢
      cases hadapt
      rfl
  refine ⟨est, hest, offsetAt_exact std hage hfinal, fun f hf => ?_⟩
  change (if _ then _ else _) = some f at hf
  split at hf
  · rw [← Option.some.inj hf]
    show spiked.2.b * 1e6 = _
    rw [hfinal.through.b]
  · cases hf

/-! ## The register -/

/-- The weights of the window. -/
def liveWeights (reg : SampleRegister R) : List R := reg.weights.drop reg.head

/-- Stored samples of one delay on the line through `value` at `now`, a second apart. -/
structure Collinear (value slope now delay : R) (samples : List (Sample R)) : Prop where
  line : ∀ s ∈ samples, s.offset = value + slope * (s.t - now)
  delay : ∀ s ∈ samples, s.delay = delay
  spaced : samples.Pairwise fun s s' => s.t + 1 ≤ s'.t

/-- Cached weights that are current are all 1, but for the `recent` last ones. -/
def Uniform (reg : SampleRegister R) (delay : R) (recent : ℕ) : Prop :=
  reg.weightsFor = some (delay, reg.weightFloorRatio) →
    ∀ w ∈ reg.liveWeights.take (reg.liveWeights.length - recent), w = 1

theorem Collinear.sublist {samples kept : List (Sample R)}
    (h : Collinear value slope now delay samples) (hs : List.Sublist kept samples) :
    Collinear value slope now delay kept where
  line s hk := h.line s (hs.mem hk)
  delay s hk := h.delay s (hs.mem hk)
  spaced := h.spaced.sublist hs

/-- The settings of a register and its cache key outlive a `push`. -/
theorem push_settings (reg : SampleRegister R) (s : Sample R) :
    (reg.push s).slopeDensityWeighting = reg.slopeDensityWeighting ∧
      (reg.push s).offsetAgeHalflifeS = reg.offsetAgeHalflifeS ∧
      (reg.push s).weightsFor = reg.weightsFor ∧
      (reg.push s).weightFloorRatio = reg.weightFloorRatio := by
  have hevict : ∀ r : SampleRegister R,
      r.evict.slopeDensityWeighting = r.slopeDensityWeighting ∧
        r.evict.offsetAgeHalflifeS = r.offsetAgeHalflifeS ∧
        r.evict.weightsFor = r.weightsFor ∧ r.evict.weightFloorRatio = r.weightFloorRatio := by
    intro r
    unfold evict
    split
    · exact ⟨rfl, rfl, rfl, rfl⟩
    · dsimp only
      split <;> exact ⟨rfl, rfl, rfl, rfl⟩
  have hcompact : ∀ r : SampleRegister R,
      r.compact.slopeDensityWeighting = r.slopeDensityWeighting ∧
        r.compact.offsetAgeHalflifeS = r.offsetAgeHalflifeS ∧
        r.compact.weightsFor = r.weightsFor ∧ r.compact.weightFloorRatio = r.weightFloorRatio := by
    intro r
    unfold compact
    split <;> exact ⟨rfl, rfl, rfl, rfl⟩
  unfold push
  dsimp only
  rw [(hcompact _).1, (hcompact _).2.1, (hcompact _).2.2.1, (hcompact _).2.2.2]
  split
  · rw [(hevict _).1, (hevict _).2.1, (hevict _).2.2.1, (hevict _).2.2.2]
    exact ⟨rfl, rfl, rfl, rfl⟩
  · exact ⟨rfl, rfl, rfl, rfl⟩

/-- A `push` adds one weight behind those that stay. -/
theorem liveWeights_push (hl : reg.head ≤ reg.weights.length) (s : Sample R) :
    ∃ k, (reg.push s).liveWeights = (reg.liveWeights ++ [0]).drop k := by
  have hevict : ∀ r : SampleRegister R, ∃ k, r.evict.liveWeights = r.liveWeights.drop k := by
    intro r
    unfold evict
    split
    · exact ⟨0, rfl⟩
    · refine ⟨1, ?_⟩
      dsimp only
      split <;> rw [liveWeights, liveWeights, List.drop_drop]
  have hcompact : ∀ r : SampleRegister R, r.compact.liveWeights = r.liveWeights := by
    intro r
    unfold compact
    split
    · exact List.drop_zero
    · rfl
  let grown : SampleRegister R :=
    { reg with samples := reg.samples ++ [s], weights := reg.weights ++ [0] }
  have hgrown : grown.liveWeights = reg.liveWeights ++ [0] :=
    List.drop_append_of_le_length hl
  have hpush : (reg.push s).liveWeights =
      (if grown.capacity < grown.samples.length - grown.head then grown.evict
        else grown).compact.liveWeights := rfl
  rw [hpush, hcompact, ← hgrown]
  split
  · exact hevict grown
  · exact ⟨0, rfl⟩

theorem length_liveWeights {cap : ℕ} {history : List (Sample R)} (ht : Tracks reg cap history) :
    reg.liveWeights.length = reg.window.length := by
  rw [liveWeights, SampleRegister.window, List.length_drop, List.length_drop, ht.weights]

/-- A `push` takes as many samples from the front of the window as it takes weights. -/
theorem push_parallel {cap : ℕ} {history : List (Sample R)} (ht : Tracks reg cap history)
    (s : Sample R) :
    ∃ k, k ≤ reg.window.length ∧ (reg.push s).window = (reg.window ++ [s]).drop k ∧
      (reg.push s).liveWeights = (reg.liveWeights ++ [0]).drop k := by
  obtain ⟨k, hk⟩ := liveWeights_push (by rw [ht.weights]; exact ht.live) s
  have hpushed := push_tracks ht s
  have hpos := ht.pos
  obtain ⟨k', hk', hwindow⟩ : ∃ k', k' ≤ reg.window.length ∧
      (reg.push s).window = (reg.window ++ [s]).drop k' := by
    rw [hpushed.window, ht.window]
    by_cases hfull : history.length < cap
    · exact ⟨0, Nat.zero_le _, lastN_concat_of_lt s hfull⟩
    · have hlen : (lastN cap history).length = cap := by
        rw [length_lastN]
        omega
      refine ⟨1, by omega, ?_⟩
      rw [lastN_concat_of_le s (by omega) (by omega),
        List.drop_append_of_le_length (by omega)]
  have hsame := length_liveWeights hpushed
  rw [hk, hwindow] at hsame
  simp only [List.length_drop, List.length_append, List.length_singleton,
    length_liveWeights ht] at hsame
  obtain rfl : k = k' := by omega
  exact ⟨k, hk', hwindow, hk⟩

/-- What holds of the weights before a `push` holds of all but the newest after it. -/
theorem push_forall {P : R → Prop} (hl : reg.head ≤ reg.weights.length)
    (h : ∀ w ∈ reg.liveWeights, P w) (s : Sample R) :
    ∀ w ∈ (reg.push s).liveWeights.take ((reg.push s).liveWeights.length - 1), P w := by
  intro w hw
  obtain ⟨k, hk⟩ := liveWeights_push hl s
  rw [← List.dropLast_eq_take, hk, List.dropLast_drop_eq_drop_dropLast,
    List.dropLast_concat] at hw
  exact h w (List.mem_of_mem_drop hw)

theorem push_uniform (hl : reg.head ≤ reg.weights.length) (h : reg.Uniform delay 0)
    (s : Sample R) : (reg.push s).Uniform delay 1 := by
  intro hfor
  rw [(reg.push_settings s).2.2.1, (reg.push_settings s).2.2.2] at hfor
  refine push_forall hl (fun w hw => h hfor w ?_) s
  rwa [Nat.sub_zero, List.take_length]

/-- With the density weighting off, a row is a sample with its weight. -/
theorem rows_eq (reg : SampleRegister R) (std : StdFloat R)
    (hdensity : reg.slopeDensityWeighting = false) :
    reg.rows std = (reg.window.zip reg.liveWeights).map fun p =>
      { t := p.1.t, offset := p.1.offset, delay := p.1.delay, w := p.2 } := by
  have hnone : reg.density = [] := by
    unfold density
    simp [hdensity]
  unfold rows
  rw [hnone]
  rfl

/-- The rows of a uniform register are straight. -/
theorem rows_straight (std : StdFloat R) (hdensity : reg.slopeDensityWeighting = false)
    (h : Collinear value slope now delay reg.window) (hw : ∀ w ∈ reg.liveWeights, w = 1) :
    Straight value slope now delay (reg.rows std) := by
  have hrows := rows_eq reg std hdensity
  have hmem : ∀ r ∈ reg.rows std, ∃ s ∈ reg.window, r.t = s.t ∧ r.offset = s.offset ∧
      r.delay = s.delay ∧ r.w = 1 := by
    intro r hr
    rw [hrows] at hr
    obtain ⟨⟨s, w⟩, hp, rfl⟩ := List.mem_map.mp hr
    obtain ⟨hs, hlive⟩ := List.of_mem_zip hp
    exact ⟨s, hs, rfl, rfl, rfl, hw w hlive⟩
  refine ⟨?_, ?_, ?_, ?_⟩
  · intro r hr
    obtain ⟨s, hs, ht, ho, -, -⟩ := hmem r hr
    rw [ho, ht, h.line s hs]
  · intro r hr
    exact (hmem r hr).choose_spec.2.2.2.2
  · intro r hr
    obtain ⟨s, hs, -, -, hd, -⟩ := hmem r hr
    rw [hd, h.delay s hs]
  · have hfst := h.spaced.sublist (map_fst_zip_sublist reg.window reg.liveWeights)
    rw [hrows, List.pairwise_map]
    rwa [List.pairwise_map] at hfst

/-- What holds of the weights `sync_weights` computes, and of those it keeps, holds of all. -/
theorem syncWeights_forall {P : R → Prop} {minDelay floor : R}
    (hl : reg.head ≤ reg.samples.length) (hwt : reg.weights.length = reg.samples.length)
    (hnew : ∀ s ∈ reg.window, P (baseWeight minDelay floor s.delay))
    (hold : reg.weightsFor = some (minDelay, reg.weightFloorRatio) →
      ∀ w ∈ reg.liveWeights.take (reg.liveWeights.length - 1), P w) :
    ∀ w ∈ (reg.syncWeights minDelay floor).liveWeights, P w := by
  intro w hw
  obtain ⟨k, hk⟩ := List.mem_iff_getElem?.mp hw
  rw [liveWeights, List.getElem?_drop] at hk
  let i := reg.head + k
  change (reg.weights.mapIdx _)[i]? = some w at hk
  rw [List.getElem?_mapIdx, Option.map_eq_some_iff] at hk
  obtain ⟨w', hw', hcalc⟩ := hk
  have hi : i < reg.samples.length := by
    rw [← hwt]
    exact (List.getElem?_eq_some_iff.mp hw').1
  have hget : reg.samples[i]? = some reg.samples[i] := List.getElem?_eq_getElem hi
  have hcomputed : P (baseWeight minDelay floor reg.samples[i].delay) := by
    refine hnew _ (List.mem_iff_getElem?.mpr ⟨k, ?_⟩)
    rw [SampleRegister.window, List.getElem?_drop]
    exact hget
  simp only [hget] at hcalc
  split at hcalc
  · rw [if_pos (Nat.le_add_right _ _)] at hcalc
    exact hcalc ▸ hcomputed
  · next hfresh =>
    split at hcalc
    · exact hcalc ▸ hcomputed
    · -- an old weight that was not computed again
      rw [← hcalc]
      refine hold (not_not.mp hfresh) w' (List.mem_iff_getElem?.mpr ⟨k, ?_⟩)
      have hlen : reg.liveWeights.length = reg.samples.length - reg.head := by
        rw [liveWeights, List.length_drop, hwt]
      rw [List.getElem?_take_of_lt (by omega), liveWeights, List.getElem?_drop]
      exact hw'

/-- `sync_weights` makes the weights uniform, computing all of them or the newest. -/
theorem syncWeights_uniform {floor : R} (hf : 0 < floor) (hl : reg.head ≤ reg.samples.length)
    (hwt : reg.weights.length = reg.samples.length) (hd : ∀ s ∈ reg.window, s.delay = delay)
    (hu : reg.Uniform delay 1) : ∀ w ∈ (reg.syncWeights delay floor).liveWeights, w = 1 := by
  refine syncWeights_forall hl hwt (fun s hs => ?_) hu
  rw [hd s hs]
  exact baseWeight_self hf

/-- **The regression over samples on a line returns the line.** -/
theorem regress_straight (std : StdFloat R) {cap : ℕ} {history : List (Sample R)}
    (hdensity : reg.slopeDensityWeighting = false) (hage : reg.offsetAgeHalflifeS = ⊤)
    (ht : Tracks reg cap history) (hu : reg.Uniform delay 1)
    (h : Collinear value slope now delay reg.window) (hlen : 3 ≤ reg.len) :
    (∃ est, (reg.regress std now).2 = some est ∧ est.offset = value ∧
      ∀ f, est.freqPpm = some f → f = slope * 1e6) ∧
    (reg.regress std now).1.Uniform delay 0 := by
  have hwindow : reg.window.length = reg.len := by
    rw [SampleRegister.window, List.length_drop]
    rfl
  obtain ⟨s, hs⟩ := List.exists_mem_of_length_pos (by omega : 0 < reg.window.length)
  have hmin : reg.minDelay = (delay : WithTop R) := by
    rw [ht.minDelay, minimumDelay]
    have hall : reg.window.map (fun s => s.delay) = List.replicate reg.window.length delay := by
      rw [List.map_congr_left h.delay, List.map_const']
    rw [hall]
    obtain ⟨n, hn⟩ : ∃ n, reg.window.length = n + 1 := ⟨reg.window.length - 1, by omega⟩
    rw [hn]
    clear hn
    induction n with
    | zero => simp [List.minimum_cons]
    | succ n ih => rw [List.replicate_succ, List.minimum_cons, ih, min_self]
  let floor := max (delay * reg.weightFloorRatio) 1e-9
  have hfloor : 0 < floor := lt_max_of_lt_right (by norm_num)
  have hweights := syncWeights_uniform hfloor ht.live ht.weights h.delay hu
  have hregress : reg.regress std now =
      (reg.syncWeights delay floor, (reg.syncWeights delay floor).regressRows std delay now) := by
    unfold regress
    rw [if_neg (by omega), hmin]
  have hrows : Straight value slope now delay ((reg.syncWeights delay floor).rows std) :=
    rows_straight std hdensity h hweights
  have htwo : 2 ≤ ((reg.syncWeights delay floor).rows std).length := by
    unfold rows
    rw [List.length_map, List.length_zip, List.length_drop]
    show 2 ≤ min reg.window.length ((reg.syncWeights delay floor).weights.length - reg.head)
    rw [syncWeights, List.length_mapIdx, ht.weights]
    have : reg.len = reg.samples.length - reg.head := rfl
    omega
  rw [hregress]
  refine ⟨regressRows_exact std hage hrows htwo, fun _ w hw => hweights w ?_⟩
  rwa [Nat.sub_zero, List.take_length] at hw

/-! ## Samples as they come -/

variable {history : List (Sample R)} {cap : ℕ}

/-- The line about another time. -/
theorem Collinear.rebase {samples : List (Sample R)}
    (h : Collinear value slope now delay samples) (later : R) :
    Collinear (value + slope * (later - now)) slope later delay samples where
  line s hs := by
    rw [h.line s hs]
    ring
  delay := h.delay
  spaced := h.spaced

/-- A change of the clock at `now` takes a line to a line. -/
theorem Collinear.reexpress {samples : List (Sample R)}
    (h : Collinear value slope now delay samples) (dfreqPpm doffset : R) :
    Collinear (value - doffset) (slope - dfreqPpm * 1e-6) now delay
      (samples.map (reexpress now dfreqPpm doffset)) where
  line s hs := by
    obtain ⟨s', hs', rfl⟩ := List.mem_map.mp hs
    simp only [SampleRegister.reexpress, h.line s' hs']
    ring
  delay s hs := by
    obtain ⟨s', hs', rfl⟩ := List.mem_map.mp hs
    exact h.delay s' hs'
  spaced := List.pairwise_map.mpr h.spaced

/-- A sample of the present on the line. -/
theorem Collinear.concat {samples : List (Sample R)} {s : Sample R}
    (h : Collinear value slope now delay samples) (ht : s.t = now) (ho : s.offset = value)
    (hd : s.delay = delay) (hlast : ∀ s' ∈ samples, s'.t + 1 ≤ now) :
    Collinear value slope now delay (samples ++ [s]) where
  line s' hs' := by
    rcases List.mem_append.mp hs' with hold | hnew
    · exact h.line s' hold
    · rw [List.mem_singleton.mp hnew, ho, ht, sub_self, mul_zero, add_zero]
  delay s' hs' := by
    rcases List.mem_append.mp hs' with hold | hnew
    · exact h.delay s' hold
    · rw [List.mem_singleton.mp hnew, hd]
  spaced := by
    refine List.pairwise_append.mpr ⟨h.spaced, List.pairwise_singleton _ _, fun a ha b hb => ?_⟩
    rw [List.mem_singleton.mp hb, ht]
    exact hlast a ha

/-- A register between exchanges: plain weighting, and every cached weight 1. -/
structure Ready (delay : R) (cap : ℕ) (reg : SampleRegister R) (history : List (Sample R)) :
    Prop where
  tracks : Tracks reg cap history
  density : reg.slopeDensityWeighting = false
  age : reg.offsetAgeHalflifeS = ⊤
  uniform : reg.Uniform delay 0
  fresh : history.length < 3 → reg.weightsFor = none

theorem Ready.slew (h : Ready delay cap reg history) (tChange dfreqPpm doffset : R) :
    Ready delay cap (reg.slewSamples tChange dfreqPpm doffset)
      (history.map (SampleRegister.reexpress tChange dfreqPpm doffset)) where
  tracks := slewSamples_tracks h.tracks tChange dfreqPpm doffset
  density := h.density
  age := h.age
  uniform := h.uniform
  fresh hlt := h.fresh (by rwa [List.length_map] at hlt)

/-- The settings a regression cannot touch. -/
theorem regress_settings (reg : SampleRegister R) (std : StdFloat R) (now : R) :
    (reg.regress std now).1.slopeDensityWeighting = reg.slopeDensityWeighting ∧
      (reg.regress std now).1.offsetAgeHalflifeS = reg.offsetAgeHalflifeS := by
  unfold regress
  split
  · exact ⟨rfl, rfl⟩
  · split <;> exact ⟨rfl, rfl⟩

/-- **One exchange.** From three samples on the regression returns the line; before that there
is none. -/
theorem Ready.exchange (std : StdFloat R) (h : Ready delay cap reg history) {s : Sample R}
    (hline : Collinear value slope now delay (history ++ [s])) :
    Ready delay cap ((reg.push s).regress std now).1 (history ++ [s]) ∧
      (3 ≤ history.length + 1 → ∃ est, ((reg.push s).regress std now).2 = some est ∧
        est.offset = value ∧ ∀ f, est.freqPpm = some f → f = slope * 1e6) ∧
      (history.length + 1 < 3 → ((reg.push s).regress std now).2 = none) := by
  have htracks := push_tracks h.tracks s
  obtain ⟨hdensity, hage, hfor, hratio⟩ := reg.push_settings s
  have hlive : reg.head ≤ reg.weights.length := by
    rw [h.tracks.weights]
    exact h.tracks.live
  have huniform := push_uniform hlive h.uniform s
  have hsub : List.Sublist (reg.push s).window (history ++ [s]) := by
    rw [htracks.window]
    exact List.drop_sublist _ _
  have hlen : (reg.push s).len = min (history.length + 1) cap := by
    have hwindow : (reg.push s).window.length = (reg.push s).len := by
      rw [SampleRegister.window, List.length_drop]
      rfl
    rw [← hwindow, htracks.window, length_lastN, List.length_append, List.length_singleton]
  have hpos := h.tracks.pos
  obtain ⟨hdensity', hage'⟩ := (reg.push s).regress_settings std now
  by_cases hthree : 3 ≤ history.length + 1
  · obtain ⟨hest, huniform'⟩ := regress_straight std (hdensity.trans h.density) (hage.trans h.age)
      htracks huniform (hline.sublist hsub) (by omega)
    refine ⟨⟨regress_tracks htracks std now, ?_, ?_, huniform', ?_⟩, fun _ => hest,
      fun hlt => absurd hthree (by omega)⟩
    · rw [hdensity', hdensity, h.density]
    · rw [hage', hage, h.age]
    · intro hlt
      rw [List.length_append, List.length_singleton] at hlt
      omega
  · have hregress : (reg.push s).regress std now = (reg.push s, none) := by
      unfold regress
      rw [if_pos (by omega)]
    have hnone : (reg.push s).weightsFor = none := by
      rw [hfor]
      exact h.fresh (by omega)
    rw [hregress]
    refine ⟨⟨htracks, hdensity.trans h.density, hage.trans h.age, fun hsome => ?_, fun _ => hnone⟩,
      fun hge => absurd hge hthree, fun _ => rfl⟩
    rw [hnone] at hsome
    cases hsome

end SampleRegister

end RustyTime
