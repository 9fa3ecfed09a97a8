import Mathlib.Algebra.Order.Ring.Unbundled.Rat
import Mathlib.Algebra.Order.Field.Basic
import Mathlib.Order.WithBot

/-!
# The discipline loop

`rusty_time-core/src/discipline.rs`: the estimate of one source becomes a clock command. The
loop only decides; the driver executes. Arithmetic is exact over an ordered field `R`, so an
estimate is never `NaN`. Durations are seconds, rates are ppm.

`onEstimateWithLeap` is one long function in the source. Its stages are definitions of their
own here, in the order the source runs them.
-/

namespace RustyTime

/-- What to do about an announced leap second. -/
inductive LeapMode where
  | slew
  | step
  | ignore
deriving DecidableEq

/-- What the platform driver should do right now. -/
inductive ClockCommand (R : Type) where
  /-- Add this many seconds to the clock. -/
  | step (addSeconds : R)
  /-- Run at `freqPpm`, and drain `drainOffset` seconds at `drainRatePpm`. -/
  | slew (freqPpm drainOffset drainRatePpm : R)
deriving DecidableEq

/-- What the maximum-change guard decided about a correction. -/
inductive ChangeVerdict (R : Type) where
  | accepted
  /-- No correction was made; `seen` refusals in a row. -/
  | refused (offsetS : R) (seen : Nat)
  /-- The allowance for refusals is spent. -/
  | giveUp (offsetS : R)
deriving DecidableEq

/-- `matches!(verdict, ChangeVerdict::Accepted)`. -/
def ChangeVerdict.isAccepted {R : Type} : ChangeVerdict R → Bool
  | .accepted => true
  | _ => false

theorem ChangeVerdict.isAccepted_iff {R : Type} {v : ChangeVerdict R} :
    v.isAccepted = true ↔ v = .accepted := by
  cases v <;> simp [isAccepted]

structure Plan (R : Type) where
  command : ClockCommand R
  /-- Seconds until the next poll. -/
  nextPollS : R
  resetRegister : Bool
  verdict : ChangeVerdict R

structure DisciplineConfig (R : Type) where
  /-- Step when the offset exceeds this; `none` never steps. -/
  makestepThreshold : Option R
  makestepLimit : Nat
  maxSlewPpm : R
  maxFreqPpm : R
  /-- log2 seconds. -/
  minPoll : Int
  maxPoll : Int
  iburst : Bool
  freqIntegralGain : R
  pollDownNoiseRatio : R
  pollUpStreak : Nat
  weightFloorRatio : R
  offsetWeightFloorRatio : R
  /-- Infinite disables the age decay. -/
  offsetAgeHalflifeS : WithTop R
  offsetWeightDispersionK : R
  slopeDensityWeighting : Bool
  corrTimeS : R
  adaptiveWindow : Bool
  corrTimeMaxS : R
  leapMode : LeapMode
  /-- The largest correction ever made; `none` is no limit. -/
  maxChangeS : Option R
  maxChangeStart : Nat
  /-- Refusals to tolerate; negative never gives up. -/
  maxChangeIgnore : Int
  corrTimeRatio : R

/-! ## Constants -/

section Constants

variable {R : Type} [Field R]

def iburstCount : Nat := 4
def iburstSpacingS : R := 2.0
def corrTimeRatioDefault : R := 1
def acquireCorrRatio : R := 1
def acquireNoiseMultiple : R := 10.0
def acquireUpdates : Nat := 8
def acquireSlewShare : R := 0.25
def acquireFullSpeedConfidence : R := 10000.0
def freqTrustSlewShare : R := 0.25
def maxAcquireBurst : Nat := 16
def leapExemptionS : R := 2.0
def offsetEwmaAlpha : R := 0.25
def acquireDoneS : R := 1e-3

/-- `exp2i`. -/
def exp2i (k : Int) : R := (2.0 : R) ^ k

variable [LinearOrder R]

/-- `f64::clamp`. -/
def clamp (lo hi x : R) : R := if x < lo then lo else if hi < x then hi else x

/-- `f64::copysign`. -/
def copysign (magnitude sign : R) : R := if sign < 0 then -|magnitude| else |magnitude|

/-- `DisciplineConfig::default`. -/
def DisciplineConfig.default : DisciplineConfig R where
  makestepThreshold := some 1
  makestepLimit := 3
  maxSlewPpm := 83333.0
  maxFreqPpm := 500.0
  minPoll := 6
  maxPoll := 10
  iburst := true
  freqIntegralGain := 0
  pollDownNoiseRatio := 10.0
  pollUpStreak := 3
  weightFloorRatio := 0.125
  offsetWeightFloorRatio := 0.03125
  offsetAgeHalflifeS := ⊤
  offsetWeightDispersionK := 0
  slopeDensityWeighting := false
  corrTimeS := 0
  corrTimeRatio := 0
  adaptiveWindow := true
  corrTimeMaxS := 128.0
  leapMode := .slew
  maxChangeS := none
  maxChangeStart := 1
  maxChangeIgnore := 2

end Constants

structure Discipline (R : Type) where
  cfg : DisciplineConfig R
  freqPpm : R
  updates : Nat
  poll : Int
  stableStreak : Nat
  iburstLeft : Nat
  /-- Drain rate of the previous plan, as a share of the ceiling. -/
  lastDrainShare : R
  burstUsed : Nat
  offsetEwma : R
  ewmaSeeded : Bool
  changeRefusals : Nat

namespace Discipline

variable {R : Type} [Field R] [LinearOrder R]

/-- `Discipline::new`. -/
def new (cfg : DisciplineConfig R) : Discipline R where
  cfg := cfg
  freqPpm := 0
  updates := 0
  poll := cfg.minPoll
  stableStreak := 0
  iburstLeft := if cfg.iburst then iburstCount else 0
  lastDrainShare := 0
  burstUsed := 0
  offsetEwma := 0
  ewmaSeeded := false
  changeRefusals := 0

/-- `acquire_share`: how much of the slew budget an acquisition correction may use. -/
def acquireShare (offset noise : R) : R :=
  if acquireFullSpeedConfidence ≤ |offset| / max noise 1e-9 then 1
  else acquireSlewShare

/-- `peek_poll_interval`. -/
def peekPollInterval (d : Discipline R) : R :=
  if 0 < d.iburstLeft then iburstSpacingS else exp2i d.poll

/-- `retry_interval_s`. -/
def retryIntervalS (d : Discipline R) : R := d.peekPollInterval

/-- `take_poll_interval`: the state afterwards; the interval is `peekPollInterval` before. -/
def takePollInterval (d : Discipline R) : Discipline R :=
  if 0 < d.iburstLeft then
    { d with iburstLeft := d.iburstLeft - 1, burstUsed := d.burstUsed + 1 }
  else d

/-- A plan, and the poll slot it consumes. -/
def emit (d : Discipline R) (command : ClockCommand R) (resetRegister : Bool)
    (verdict : ChangeVerdict R) : Discipline R × Plan R :=
  (d.takePollInterval,
    { command := command, nextPollS := d.peekPollInterval, resetRegister := resetRegister
      verdict := verdict })

/-! ## The guards -/

/-- An announced leap second is exempt from the maximum-change guard. -/
def leapExempt (d : Discipline R) (offset : R) (leapPending : Bool) : Bool :=
  leapPending && d.cfg.leapMode ≠ .ignore && decide (|offset| ≤ leapExemptionS)

/-- The maximum-change guard's test, `updates` counting this one. -/
def exceedsMaxChange (d : Discipline R) (offset : R) (leapExempt : Bool) : Bool :=
  match d.cfg.maxChangeS with
  | none => false
  | some limit =>
    !leapExempt && decide (d.cfg.maxChangeStart < d.updates) && !decide (|offset| ≤ limit)

/-- A correction the guard turns down: hold the frequency, drain nothing. -/
def refuse (d : Discipline R) (offset : R) : Discipline R × Plan R :=
  let d := { d with changeRefusals := d.changeRefusals + 1, stableStreak := 0 }
  let spent := 0 ≤ d.cfg.maxChangeIgnore ∧ d.cfg.maxChangeIgnore < (d.changeRefusals : Int)
  d.emit (.slew d.freqPpm 0 0) false
    (if spent then .giveUp offset else .refused offset d.changeRefusals)

/-- The step epoch's test. -/
def stepsAway (d : Discipline R) (offset : R) : Bool :=
  match d.cfg.makestepThreshold with
  | none => false
  | some threshold => decide (threshold < |offset|) && decide (d.updates ≤ d.cfg.makestepLimit)

/-! ## The stages of a slew -/

/-- The measured frequency is accumulated, unless the clock was being hauled. -/
def accumulateFreq (d : Discipline R) (freqPpmMeas : Option R) : Discipline R :=
  match freqPpmMeas with
  | some fm =>
    if freqTrustSlewShare < d.lastDrainShare then d
    else { d with freqPpm := clamp (-d.cfg.maxFreqPpm) d.cfg.maxFreqPpm (d.freqPpm + fm) }
  | none => d

/-- The slow average of the offsets. -/
def averageOffset (d : Discipline R) (offset : R) : Discipline R :=
  if d.ewmaSeeded then
    { d with offsetEwma := (1 - offsetEwmaAlpha) * d.offsetEwma + offsetEwmaAlpha * offset }
  else { d with offsetEwma := offset, ewmaSeeded := true }

/-- The integral trim. -/
def integralTrim (d : Discipline R) (noise : R) : Discipline R :=
  if d.cfg.freqIntegralGain ≠ 0 ∧ acquireUpdates < d.updates ∧ noise < |d.offsetEwma| then
    let implied := d.offsetEwma / (corrTimeRatioDefault * d.peekPollInterval) * 1e6
    { d with
      freqPpm := clamp (-d.cfg.maxFreqPpm) d.cfg.maxFreqPpm
        (d.freqPpm + d.cfg.freqIntegralGain * implied) }
  else d

/-- Poll adaptation: longer when quiet, shorter when the offset is loud. -/
def adaptPoll (d : Discipline R) (offset noise : R) : Discipline R :=
  if |offset| < 2.0 * noise then
    let d := { d with stableStreak := d.stableStreak + 1 }
    if d.cfg.pollUpStreak ≤ d.stableStreak ∧ d.poll < d.cfg.maxPoll then
      { d with poll := d.poll + 1, stableStreak := 0 }
    else d
  else
    let d := { d with stableStreak := 0 }
    if d.cfg.pollDownNoiseRatio * noise < |offset| ∧ d.cfg.minPoll < d.poll then
      { d with poll := d.poll - 1 }
    else d

/-- The acquisition burst goes on while a correction is outstanding. -/
def extendBurst (d : Discipline R) (offset noise : R) : Discipline R :=
  if d.iburstLeft = 0 ∧ d.cfg.iburst ∧ d.burstUsed < maxAcquireBurst ∧
      max acquireDoneS (2.0 * noise) < |offset| then
    { d with iburstLeft := 1 }
  else d

/-- The correction time of the gentle drain. -/
def corrTime (d : Discipline R) : R :=
  let ratio := if 0 < d.cfg.corrTimeRatio then d.cfg.corrTimeRatio else corrTimeRatioDefault
  if 0 < d.cfg.corrTimeS then d.cfg.corrTimeS
  else min (ratio * d.peekPollInterval) d.cfg.corrTimeMaxS

/-- The wanted drain rate. Over a correction time of zero it is infinite (or `NaN`, which the
`min` that reads it treats alike). -/
def wantedRatePpm (d : Discipline R) (offset noise : R) : WithTop R :=
  if d.updates ≤ acquireUpdates ∧ acquireNoiseMultiple * noise < |offset| then
    (min (|offset| / (acquireCorrRatio * d.peekPollInterval) * 1e6)
      (d.cfg.maxSlewPpm * acquireShare offset noise) : R)
  else if d.corrTime = 0 then ⊤
  else (|offset| / d.corrTime * 1e6 : R)

/-- The drain rate, under the slew ceiling. -/
def drainRatePpm (d : Discipline R) (offset noise : R) : R :=
  match d.wantedRatePpm offset noise with
  | none => d.cfg.maxSlewPpm
  | some wanted => min wanted d.cfg.maxSlewPpm

/-- The state in which the drain of a slew is sized. -/
def prepareSlew (d : Discipline R) (offset : R) (freqPpmMeas : Option R) (noise : R) :
    Discipline R :=
  ((((d.accumulateFreq freqPpmMeas).averageOffset offset).integralTrim noise).adaptPoll
    offset noise).extendBurst offset noise

/-- A correction by slewing. -/
def planSlew (d : Discipline R) (offset : R) (freqPpmMeas : Option R) (offsetSd : R) :
    Discipline R × Plan R :=
  let noise := max offsetSd 1e-7
  let d := d.prepareSlew offset freqPpmMeas noise
  let rate := d.drainRatePpm offset noise
  let d := { d with
    lastDrainShare := if 0 < d.cfg.maxSlewPpm then rate / d.cfg.maxSlewPpm else 0 }
  d.emit (.slew d.freqPpm offset rate) false .accepted

/-- `on_estimate_with_leap`. -/
def onEstimateWithLeap (d : Discipline R) (offset : R) (freqPpmMeas : Option R) (offsetSd : R)
    (leapPending : Bool) : Discipline R × Plan R :=
  let d := { d with updates := d.updates + 1 }
  let exempt := d.leapExempt offset leapPending
  if exempt ∧ d.cfg.leapMode = .step then
    { d with stableStreak := 0, changeRefusals := 0 }.emit (.step offset) true .accepted
  else if d.exceedsMaxChange offset exempt then d.refuse offset
  else
    let d := { d with changeRefusals := 0 }
    if d.stepsAway offset then { d with stableStreak := 0 }.emit (.step offset) true .accepted
    else d.planSlew offset freqPpmMeas offsetSd

end Discipline

end RustyTime
