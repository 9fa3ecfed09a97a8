import Mathlib.Algebra.Order.Ring.Unbundled.Rat
import Mathlib.Algebra.Order.Field.Basic
import Mathlib.Order.WithBot

/-!
# The sample register

`rusty_time-core/src/filter.rs`: a source's sliding window of samples and the weighted
regression over it. Arithmetic is exact, over an ordered field `R`; `WithTop R` is a number
that may be infinite. A `Vec` is a list.

`StdFloat` holds the functions of the standard library that a field has none for. The row
buffers `rows` and `rows_alt` carry nothing from one call to the next and are left out.
-/

namespace RustyTime

/-- What the code uses of the standard library beyond field arithmetic and comparison. -/
structure StdFloat (R : Type) where
  /-- `f64::sqrt`. -/
  sqrt : R → R
  /-- `0.5f64.powf`. -/
  halfPow : R → R
  /-- `binary_search_by` with `total_cmp`: the index of a match, any one of several. -/
  binarySearch : List R → R → Option Nat

structure Sample (R : Type) where
  /-- Local monotonic time of the exchange midpoint. -/
  t : R
  /-- Seconds to add to the local clock. -/
  offset : R
  delay : R
  dispersion : R
deriving DecidableEq

/-- Regression output. -/
structure RegressEstimate (R : Type) where
  offset : R
  freqPpm : Option R
  offsetSd : R
  nUsed : Nat
  span : R

structure SampleRegister (R : Type) where
  /-- Base weights, parallel to `samples`. -/
  weights : List R
  /-- The minimum delay and floor ratio the weights were computed for; `none` is `NaN`. -/
  weightsFor : Option (R × R)
  /-- Index of the oldest live sample. -/
  head : Nat
  samples : List (Sample R)
  capacity : Nat
  /-- Smallest delay in the window. -/
  minDelay : WithTop R
  weightFloorRatio : R
  offsetWeightFloorRatio : R
  slopeDensityWeighting : Bool
  adaptiveWindow : Bool
  offsetWeightDispersionK : R
  /-- Half-life of the age decay; infinite disables it. -/
  offsetAgeHalflifeS : WithTop R

/-- One sample as the regression passes want it. -/
structure Row (R : Type) where
  t : R
  offset : R
  delay : R
  w : R

structure Fit (R : Type) where
  /-- Offset at `t0`. -/
  a : R
  b : R
  /-- Weighted mean of the sample times. -/
  t0 : R
  sxx : R
  sw : R

namespace SampleRegister

variable {R : Type} [Field R] [LinearOrder R]

/-- `SampleRegister::new`. -/
def new (capacity : Nat) : SampleRegister R where
  weights := []
  weightsFor := none
  head := 0
  samples := []
  capacity := max capacity 3
  minDelay := ⊤
  weightFloorRatio := 0.125
  offsetWeightFloorRatio := 0.03125
  slopeDensityWeighting := false
  adaptiveWindow := true
  offsetWeightDispersionK := 0
  offsetAgeHalflifeS := ⊤

def setWeightFloorRatio (reg : SampleRegister R) (ratio : R) : SampleRegister R :=
  { reg with weightFloorRatio := max ratio 1e-4 }

def setOffsetWeightFloorRatio (reg : SampleRegister R) (ratio : R) : SampleRegister R :=
  { reg with offsetWeightFloorRatio := max ratio 1e-4 }

def setSlopeDensityWeighting (reg : SampleRegister R) (on : Bool) : SampleRegister R :=
  { reg with slopeDensityWeighting := on }

def setAdaptiveWindow (reg : SampleRegister R) (on : Bool) : SampleRegister R :=
  { reg with adaptiveWindow := on }

def setOffsetWeightDispersionK (reg : SampleRegister R) (k : R) : SampleRegister R :=
  { reg with offsetWeightDispersionK := max k 0 }

def setOffsetAgeHalflifeS (reg : SampleRegister R) (halflife : WithTop R) : SampleRegister R :=
  { reg with offsetAgeHalflifeS := if 0 < halflife then halflife else ⊤ }

/-! ## The window -/

/-- `window`: the samples that have not been evicted. -/
def window (reg : SampleRegister R) : List (Sample R) := reg.samples.drop reg.head

/-- The scan for a new minimum delay. -/
def lowestDelay (kept : List (Sample R)) : WithTop R :=
  kept.foldl (fun lowest s => min lowest (s.delay : WithTop R)) ⊤

/-- The eviction of `push`: the oldest sample leaves, and the minimum with it. -/
def evict (reg : SampleRegister R) : SampleRegister R :=
  match reg.samples[reg.head]? with
  | none => reg
  | some evicted =>
    let reg := { reg with head := reg.head + 1 }
    if (evicted.delay : WithTop R) ≤ reg.minDelay then
      { reg with minDelay := lowestDelay (reg.samples.drop reg.head) }
    else reg

/-- The compaction of `push`: the dead prefix goes once it is as long as the window. -/
def compact (reg : SampleRegister R) : SampleRegister R :=
  if reg.capacity ≤ reg.head then
    { reg with
      samples := reg.samples.drop reg.head
      weights := reg.weights.drop reg.head
      head := 0 }
  else reg

/-- `push`. -/
def push (reg : SampleRegister R) (s : Sample R) : SampleRegister R :=
  let reg := { reg with samples := reg.samples ++ [s], weights := reg.weights ++ [0] }
  let reg := if reg.capacity < reg.samples.length - reg.head then reg.evict else reg
  let reg := reg.compact
  { reg with minDelay := min reg.minDelay (s.delay : WithTop R) }

/-- `clear`. -/
def clear (reg : SampleRegister R) : SampleRegister R :=
  { reg with samples := [], weights := [], weightsFor := none, head := 0, minDelay := ⊤ }

/-- What the window loop of `slew_samples` does to one sample. -/
def slewSample (tChange dfreqPpm doffset : R) (s : Sample R) : Sample R :=
  if dfreqPpm = 0 then
    if doffset ≠ 0 then { s with offset := s.offset - doffset } else s
  else
    let rate := dfreqPpm * 1e-6
    if doffset = 0 then { s with offset := s.offset - rate * (s.t - tChange) }
    else { s with offset := s.offset - (doffset + rate * (s.t - tChange)) }

/-- `slew_samples`. -/
def slewSamples (reg : SampleRegister R) (tChange dfreqPpm doffset : R) : SampleRegister R :=
  { reg with
    samples := reg.samples.take reg.head ++
      (reg.samples.drop reg.head).map (slewSample tChange dfreqPpm doffset) }

def len (reg : SampleRegister R) : Nat := reg.samples.length - reg.head

/-- `best`: the minimum delay among the most recent eight, the first of several. -/
def best (reg : SampleRegister R) : Option (Sample R) :=
  let win := reg.window
  (win.drop (win.length - 8)).foldl (fun best s =>
    match best with
    | none => some s
    | some b => if s.delay < b.delay then some s else some b) none

/-! ## Weights -/

/-- A sample's base weight for a minimum delay and a floor. -/
def baseWeight (minDelay floor : R) (delay : R) : R :=
  let excess := max (delay - minDelay) 0 + floor
  let q := floor / excess
  max (q * q) 1e-6

/-- `sync_weights`: all the weights when the inputs they share moved, else the newest. -/
def syncWeights (reg : SampleRegister R) (minDelay floor : R) : SampleRegister R :=
  let key := (minDelay, reg.weightFloorRatio)
  let stale := reg.weightsFor ≠ some key
  let start := if stale then reg.head else reg.samples.length - 1
  { reg with
    weights := reg.weights.mapIdx fun i w =>
      match reg.samples[i]? with
      | some s => if start ≤ i then baseWeight minDelay floor s.delay else w
      | none => w
    weightsFor := some key }

end SampleRegister

/-! ## Fits -/

section Fits

variable {R : Type} [Field R] [LinearOrder R]

/-- `wls_fit`: weighted least squares over rows that carry their weight. -/
def wlsFit (rows : List (Row R)) : Option (Fit R) :=
  if rows.length < 2 then none
  else
    let sw := (rows.map fun r => r.w).sum
    let swt := (rows.map fun r => r.w * r.t).sum
    if sw ≤ 0 then none
    else
      let t0 := swt / sw
      let sxx := (rows.map fun r => r.w * (r.t - t0) * (r.t - t0)).sum
      let sxy := (rows.map fun r => r.w * (r.t - t0) * r.offset).sum
      let sy := (rows.map fun r => r.w * r.offset).sum
      let b := if 1e-12 < sxx then sxy / sxx else 0
      some { a := sy / sw, b := b, t0 := t0, sxx := sxx, sw := sw }

/-- A row's residual about a fit. -/
def Fit.resid (fit : Fit R) (r : Row R) : R := r.offset - (fit.a + fit.b * (r.t - fit.t0))

/-- `finish_sd`. -/
def finishSd (std : StdFloat R) (sw sr : R) (n : Nat) : R :=
  if sw ≤ 0 then 0
  else
    let dof := max ((n : R) - 2.0) 1
    std.sqrt (sr / sw * (n : R) / dof)

/-- `residual_sd`. -/
def residualSd (std : StdFloat R) (rows : List (Row R)) (fit : Fit R) : R :=
  finishSd std (rows.map fun r => r.w).sum
    (rows.map fun r => r.w * fit.resid r * fit.resid r).sum rows.length

/-- The element `select_nth_unstable` places at `mid`. -/
def selectNth (xs : List R) (mid : Nat) : R :=
  ((xs.mergeSort fun x y => decide (x ≤ y))[mid]?).getD 0

/-- The largest of the values that are over 0. -/
def worstOf (xs : List R) : R := xs.foldl (fun worst v => if worst < v then v else worst) 0

/-- `residual_half_gap_and_mad`: the gap between the halves' mean residuals, the median
absolute residual and the largest droppable one. -/
def residualHalfGapAndMad (rows : List (Row R)) (fit : Fit R) : R × R × R :=
  let n := rows.length
  if n = 0 then (0, 0, 0)
  else
    let half := n / 2
    let resids := rows.map fit.resid
    let meanOld := if half = 0 then 0 else (resids.take half).sum / (half : R)
    let meanNew := if n = half then 0 else (resids.drop half).sum / ((n - half : Nat) : R)
    let abs := resids.map fun v => |v|
    (|meanOld - meanNew|, selectNth abs (n / 2), worstOf (abs.take (n - 3)))

/-- The loop of `residuals_well_mixed`. -/
def wellMixedFrom (need : Nat) : List R → Nat → Int → Bool
  | [], _, _ => false
  | r :: resids, runs, lastSign =>
    let sign : Int := if 0 < r then 1 else -1
    if sign ≠ lastSign then
      if need ≤ (runs + 1) * 3 then true else wellMixedFrom need resids (runs + 1) sign
    else wellMixedFrom need resids runs lastSign

/-- `residuals_well_mixed`: whether the runs of one sign reach a third of the window. -/
def residualsWellMixed (rows : List (Row R)) (fit : Fit R) : Bool :=
  wellMixedFrom rows.length (rows.map fit.resid) 0 0

/-- `spike_threshold_from`: the threshold, when something droppable exceeds it. -/
def spikeThresholdFrom (abs : List R) (n : Nat) : Option R :=
  let worst := worstOf (abs.take (n - 3))
  if worst ≤ 1e-9 then none
  else
    let mid := n / 2
    let below := abs.countP fun v => decide (3.0 * 1.4826 * v < worst)
    if below < mid + 1 then none
    else some (max (3.0 * 1.4826 * selectNth abs mid) 1e-9)

/-- The loop of `spike_keep_mask`: bit `i` is set for a row that is kept. -/
def keepBits (protectFrom : Nat) (threshold : R) (abs : List R) : BitVec 64 :=
  abs.zipIdx.foldl (fun keep p =>
    if decide (protectFrom ≤ p.2) || decide (p.1 ≤ threshold) then keep ||| 1#64 <<< p.2
    else keep) 0#64

/-- `spike_keep_mask`: the threshold, and up to 64 rows the mask of those to keep. -/
def spikeKeepMask (rows : List (Row R)) (fit : Fit R) : Option (R × Option (BitVec 64)) :=
  let n := rows.length
  if n = 0 then none
  else
    let abs := rows.map fun r => |fit.resid r|
    match spikeThresholdFrom abs n with
    | none => none
    | some threshold =>
      if 64 < n then some (threshold, none)
      else some (threshold, some (keepBits (n - 3) threshold abs))

/-- The rows pass 2 keeps: by the mask, and over 64 rows by the walk. -/
def keptRows (used : List (Row R)) (fit : Fit R) (threshold : R) :
    Option (BitVec 64) → List (Row R)
  | some keep => (used.zipIdx.filter fun p => keep &&& 1#64 <<< p.2 != 0#64).map Prod.fst
  | none =>
    (used.zipIdx.filter fun p =>
      decide (used.length - 3 ≤ p.2) || decide (|fit.resid p.1| ≤ threshold)).map Prod.fst

/-! ## The passes of the regression -/

/-- The standard error of the predicted offset at `now`. -/
def seOffset (std : StdFloat R) (now : R) (rows : List (Row R)) (f : Fit R) : R :=
  let dt := now - f.t0
  residualSd std rows f * std.sqrt (1 / f.sw + dt * dt / f.sxx)

/-- The search for the window length, over the doubling lengths below the full one. `none` is
an infinite standard error. -/
def bestLenFrom (std : StdFloat R) (now : R) (used : List (Row R)) :
    Nat → Nat → WithTop R → Nat → Nat
  | 0, _, _, bestLen => bestLen
  | fuel + 1, len, best, bestLen =>
    if len < used.length then
      let tail := used.drop (used.length - len)
      match wlsFit tail with
      | some f =>
        if 0 < f.sxx ∧ 0 < f.sw then
          let se : WithTop R := (seOffset std now tail f : R)
          if se < best then bestLenFrom std now used fuel (len * 2) se len
          else bestLenFrom std now used fuel (len * 2) best bestLen
        else bestLenFrom std now used fuel (len * 2) best bestLen
      | none => bestLenFrom std now used fuel (len * 2) best bestLen
    else bestLen

/-- The adaptive window: a shorter one has to beat the full one. -/
def adaptWindow (std : StdFloat R) (now : R) (used : List (Row R)) (fit : Fit R) :
    Option (List (Row R) × Fit R) :=
  let best : WithTop R := if 0 < fit.sxx ∧ 0 < fit.sw then (seOffset std now used fit : R) else ⊤
  let bestLen := bestLenFrom std now used used.length 8 best used.length
  if bestLen < used.length then
    let used := used.drop (used.length - bestLen)
    (wlsFit used).map fun fit => (used, fit)
  else some (used, fit)

/-- Pass 1: drop the oldest quarter while the residuals show two regimes. -/
def dropHistory : Nat → List (Row R) → Fit R → List (Row R) × Fit R
  | 0, win, fit => (win, fit)
  | passes + 1, win, fit =>
    if win.length < 8 then (win, fit)
    else if residualsWellMixed win fit then (win, fit)
    else
      let (halfGap, mad, _) := residualHalfGapAndMad win fit
      if halfGap ≤ 3.0 * max (1.4826 * mad) 1e-9 then (win, fit)
      else
        let rest := win.drop (max (win.length / 4) 2)
        match wlsFit rest with
        | some refit => dropHistory passes rest refit
        | none => (rest, fit)

/-- Pass 2: drop interior spikes, never the three newest. -/
def trimSpikes (used : List (Row R)) (fit : Fit R) : List (Row R) × Fit R :=
  if 4 < used.length then
    match spikeKeepMask used fit with
    | none => (used, fit)
    | some (threshold, mask) =>
      let kept := keptRows used fit threshold mask
      if 3 ≤ kept.length ∧ kept.length < used.length then
        match wlsFit kept with
        | some refit => (kept, refit)
        | none => (used, fit)
      else (used, fit)
  else (used, fit)

end Fits

namespace SampleRegister

variable {R : Type} [Field R] [LinearOrder R]

/-- The time each sample stands for, normalised to mean 1. Empty unless the weighting is on. -/
def density (reg : SampleRegister R) : List R :=
  let n := reg.len
  if reg.slopeDensityWeighting ∧ 3 ≤ n then
    let ts := reg.window.map fun s => s.t
    let at_ (i : Nat) : R := (ts[i]?).getD 0
    let d := (List.range n).map fun i =>
      let lo := if i = 0 then at_ 0 else (at_ i + at_ (i - 1)) / 2.0
      let hi := if i + 1 = n then at_ (n - 1) else (at_ i + at_ (i + 1)) / 2.0
      max (hi - lo) 0
    let mean := d.sum / (n : R)
    if 0 < mean then d.map fun v => v / mean else List.replicate n 1
  else []

/-- The working set of the regression: the window with its weights. -/
def rows (std : StdFloat R) (reg : SampleRegister R) : List (Row R) :=
  let density := reg.density
  let times := reg.window.map fun s => s.t
  let factor (s : Sample R) : R :=
    match std.binarySearch times s.t with
    | some i => (density[i]?).getD 1
    | none => 1
  (reg.window.zip (reg.weights.drop reg.head)).map fun (s, w) =>
    { t := s.t, offset := s.offset, delay := s.delay
      w := if density.isEmpty then w else w * factor s }

/-- The offset at `now`, re-seated on the sharper weights with the slope held fixed. -/
def offsetAt (std : StdFloat R) (reg : SampleRegister R) (minDelay now : R) (used : List (Row R))
    (fit : Fit R) : R :=
  if reg.offsetWeightFloorRatio ≠ reg.weightFloorRatio ∨ 0 < reg.offsetWeightDispersionK ∨
      reg.offsetAgeHalflifeS ≠ ⊤ then
    let sharpFloor :=
      if 0 < reg.offsetWeightDispersionK then
        let median := selectNth (used.map fun r => r.delay) (used.length / 2)
        max (max (reg.offsetWeightDispersionK * (median - minDelay)) (minDelay * 1e-4))
          1e-9
      else max (minDelay * reg.offsetWeightFloorRatio) 1e-9
    let weight (r : Row R) : R :=
      match reg.offsetAgeHalflifeS with
      | none => baseWeight minDelay sharpFloor r.delay
      | some halflife =>
        baseWeight minDelay sharpFloor r.delay * std.halfPow (max (now - r.t) 0 / halflife)
    let sw := (used.map weight).sum
    let swt := (used.map fun r => weight r * r.t).sum
    let swy := (used.map fun r => weight r * r.offset).sum
    if 0 < sw then swy / sw + fit.b * (now - swt / sw) else fit.a + fit.b * (now - fit.t0)
  else fit.a + fit.b * (now - fit.t0)

/-- The time between the first and the last row. -/
def spanOf (used : List (Row R)) : R :=
  match used.head?, used.getLast? with
  | some lo, some hi => max (hi.t - lo.t) 0
  | _, _ => 0

/-- The passes of `regress` over the working set. -/
def regressRows (std : StdFloat R) (reg : SampleRegister R) (minDelay now : R) :
    Option (RegressEstimate R) := do
  let used := reg.rows std
  let fit ← wlsFit used
  let (used, fit) ←
    if reg.adaptiveWindow ∧ 8 ≤ used.length then adaptWindow std now used fit
    else some (used, fit)
  let (used, fit) := dropHistory 4 used fit
  let (used, fit) := trimSpikes used fit
  let span := spanOf used
  let freqPpm := if 4 ≤ used.length ∧ 8.0 ≤ span then some (fit.b * 1e6) else none
  some
    { offset := reg.offsetAt std minDelay now used fit
      freqPpm := freqPpm
      offsetSd := residualSd std used fit
      nUsed := used.length
      span := span }

/-- `regress`. A window of three samples has a finite minimum delay, so the infinite one is
never read here. -/
def regress (std : StdFloat R) (reg : SampleRegister R) (now : R) :
    SampleRegister R × Option (RegressEstimate R) :=
  if reg.len < 3 then (reg, none)
  else
    match reg.minDelay with
    | none => (reg, none)
    | some minDelay =>
      let floor := max (minDelay * reg.weightFloorRatio) 1e-9
      let reg := reg.syncWeights minDelay floor
      (reg, reg.regressRows std minDelay now)

end SampleRegister

end RustyTime
