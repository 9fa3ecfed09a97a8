import Mathlib.Algebra.Order.AddGroupWithTop
import Mathlib.Algebra.Order.Ring.Unbundled.Rat
import Mathlib.Algebra.Order.Field.Basic

/-!
# The virtual clock

`rusty_time-core/src/vclock.rs`: a disciplined view of time for hosts whose clock cannot be
adjusted. Its output never steps backwards; a correction that would reverse it freezes it
instead. Arithmetic is exact over an ordered field `R`; the infinite error bound before the
first update is `⊤`, and the high water mark before the first reading is `none`.
-/

namespace RustyTime

structure VirtualClock (R : Type) where
  /-- Seconds to add to the raw wall clock. -/
  offset : R
  /-- The raw clock's frequency error; positive runs fast. -/
  skewPpm : R
  lastUpdateMono : Option R
  /-- Error bound at the last update. -/
  errAtUpdate : WithTop R
  /-- How fast the error bound grows with no updates. -/
  errGrowthPpm : R
  /-- Highest corrected time handed out. -/
  highWater : Option R

namespace VirtualClock

variable {R : Type} [Field R] [LinearOrder R]

/-- `VirtualClock::new`. -/
def new : VirtualClock R where
  offset := 0
  skewPpm := 0
  lastUpdateMono := none
  errAtUpdate := ⊤
  errGrowthPpm := 15.0
  highWater := none

/-- `update`. -/
def update (c : VirtualClock R) (mono offset : R) (skewPpm : Option R) (errorBound : R) :
    VirtualClock R :=
  { c with
    offset := offset
    skewPpm := skewPpm.getD c.skewPpm
    lastUpdateMono := some mono
    errAtUpdate := max errorBound 0 }

/-- The raw reading with the correction in force. -/
def corrected (c : VirtualClock R) (mono rawWall : R) : R :=
  match c.lastUpdateMono with
  | some t0 => rawWall + c.offset - c.skewPpm * 1e-6 * max (mono - t0) 0
  | none => rawWall

/-- `now`: the clock afterwards, and the time handed out. -/
def now (c : VirtualClock R) (mono rawWall : R) : VirtualClock R × R :=
  let corrected := c.corrected mono rawWall
  match c.highWater with
  | some highWater =>
    if corrected < highWater then (c, highWater)
    else ({ c with highWater := some corrected }, corrected)
  | none => ({ c with highWater := some corrected }, corrected)

/-- `confidence`. -/
def confidence (c : VirtualClock R) (mono : R) : WithTop R :=
  match c.lastUpdateMono with
  | some t0 => c.errAtUpdate + (c.errGrowthPpm * 1e-6 * max (mono - t0) 0 : R)
  | none => ⊤

end VirtualClock

end RustyTime
