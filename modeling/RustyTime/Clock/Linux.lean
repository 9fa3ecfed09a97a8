import Mathlib.Algebra.Order.Floor.Ring
import RustyTime.Core.Discipline

/-!
# The Linux clock driver

`rusty_time-clock/src/slew.rs` and `linux.rs`: how a command becomes a tick and a frequency.
The clock is what `clock_adjtime` was last given. `nominalTickUs` is the kernel's nominal tick.

A conversion of a float to an integer type stays inside that type for every value here, so it
is truncation towards zero.
-/

namespace RustyTime

variable {R : Type} [Field R] [LinearOrder R]

/-! ## Slew arithmetic -/

section Slew

variable [FloorRing R]

/-- `as i64`: towards zero. -/
def truncate (x : R) : Int := if 0 ≤ x then ⌊x⌋ else ⌈x⌉

/-- `f64::round`: to the nearest, halves away from zero. -/
def roundHalfAway (x : R) : Int := if 0 ≤ x then ⌊x + 0.5⌋ else ⌈x - 0.5⌉

/-- `total_ppm`. -/
def totalPpm (freqPpm drainOffset drainRatePpm maxPpm : R) : R :=
  clamp (-maxPpm) maxPpm (freqPpm + copysign drainRatePpm drainOffset)

/-- The kernel's ceiling on `ADJ_FREQUENCY`, ppm. -/
def linuxMaxAdjFreqPpm : R := 500.0

def linuxTickRangeFraction : R := 0.1

/-- How many ppm one microsecond of tick is worth. -/
def ppmPerUs (nominalTickUs : Int) : R := 1e6 / (nominalTickUs : R)

/-- How far the kernel lets the tick go from nominal. -/
def maxTickOffsetUs (R : Type) [Field R] [LinearOrder R] [FloorRing R] (nominalTickUs : Int) :
    Int :=
  ⌊(nominalTickUs : R) * linuxTickRangeFraction⌋

/-- `linux_max_slew_ppm`. -/
def linuxMaxSlewPpm (nominalTickUs : Int) : R :=
  if nominalTickUs ≤ 0 then linuxMaxAdjFreqPpm
  else (maxTickOffsetUs R nominalTickUs : R) * ppmPerUs nominalTickUs + linuxMaxAdjFreqPpm

/-- The tick's share of a wanted frequency: none unless the frequency knob cannot cover it. -/
def tickOffsetUs (wanted : R) (nominalTickUs : Int) : Int :=
  let maxOffset := maxTickOffsetUs R nominalTickUs
  if linuxMaxAdjFreqPpm < |wanted| then
    max (-maxOffset) (min maxOffset (roundHalfAway (wanted / ppmPerUs nominalTickUs)))
  else 0

/-- `linux_tick_and_freq`: the tick, and the residual for `ADJ_FREQUENCY`. -/
def linuxTickAndFreq (totalPpm : R) (nominalTickUs : Int) : Int × R :=
  if nominalTickUs ≤ 0 then
    (nominalTickUs, clamp (-linuxMaxAdjFreqPpm) linuxMaxAdjFreqPpm totalPpm)
  else
    let perUs := ppmPerUs nominalTickUs
    let reachable := (maxTickOffsetUs R nominalTickUs : R) * perUs + linuxMaxAdjFreqPpm
    let wanted := clamp (-reachable) reachable totalPpm
    let offsetUs := tickOffsetUs wanted nominalTickUs
    (nominalTickUs + offsetUs,
      clamp (-linuxMaxAdjFreqPpm) linuxMaxAdjFreqPpm (wanted - (offsetUs : R) * perUs))

end Slew

/-! ## The driver -/

/-- `clock_adjtime`'s state: the tick, the frequency in 2^-16 ppm, and the time added by
`ADJ_SETOFFSET`, in nanoseconds. -/
structure SystemClock where
  tickUs : Int
  freq : Int
  offsetNs : Int
deriving DecidableEq

namespace SystemClock

/-- A clock no command has reached. -/
def fresh (nominalTickUs : Int) : SystemClock := ⟨nominalTickUs, 0, 0⟩

def freqScale : R := 65536.0

/-- The frequency correction installed, in ppm. -/
def installedPpm (nominalTickUs : Int) (clock : SystemClock) : R :=
  ((clock.tickUs - nominalTickUs : Int) : R) * ppmPerUs nominalTickUs
    + (clock.freq : R) / freqScale

variable [FloorRing R]

/-- The seconds and nanoseconds of a step, the nanoseconds not negative. -/
def stepParts (addSeconds : R) : Int × Int :=
  let nsTotal := truncate (addSeconds * 1e9)
  let sec := nsTotal.tdiv 1000000000
  let nsec := nsTotal.tmod 1000000000
  if nsec < 0 then (sec - 1, nsec + 1000000000) else (sec, nsec)

/-- `apply`, when the kernel accepts the call. -/
def apply (nominalTickUs : Int) (clock : SystemClock) : ClockCommand R → SystemClock
  | .step addSeconds =>
    let (sec, nsec) := stepParts addSeconds
    { clock with offsetNs := clock.offsetNs + (sec * 1000000000 + nsec) }
  | .slew freqPpm drainOffset drainRatePpm =>
    let total := totalPpm freqPpm drainOffset drainRatePpm (linuxMaxSlewPpm nominalTickUs)
    let (tickUs, residualPpm) := linuxTickAndFreq total nominalTickUs
    { clock with tickUs := tickUs, freq := truncate (residualPpm * freqScale) }

end SystemClock

end RustyTime
