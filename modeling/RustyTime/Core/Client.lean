import RustyTime.Core.Discipline
import RustyTime.Core.Filter

/-!
# The client-side controller

`rusty_time-core/src/client.rs`: several sources, one clock loop. Each source has a sample
register; the frequency, the drain and its budget belong to the clock and are shared.

An index past the last register panics in the source. Here such an `observe` records nothing.
-/

namespace RustyTime

/-- One source's estimate of the clock. -/
structure Estimate (R : Type) where
  offsetS : R
  freqPpm : Option R
  sdS : R
  samples : Nat

/-- What one plan booked, kept until the driver's answer is known. -/
structure Unapplied (R : Type) where
  monoS : R
  dfreqPpm : R
  stepS : R
  freqCmdBefore : R
  drainPpmBefore : R
  drainRemainingBefore : R

structure MultiController (R : Type) where
  /-- One per source. -/
  registers : List (SampleRegister R)
  discipline : Discipline R
  /-- The permanent frequency correction commanded. -/
  freqCmdPpm : R
  /-- The temporary drain rate running. -/
  drainPpm : R
  /-- Seconds of correction the drain still owes. -/
  drainRemainingS : R
  lastPlanMonoS : Option R
  /-- Up to when the drain has been booked against the registers. -/
  drainBookedUntil : Option R
  unapplied : Option (Unapplied R)

/-- What the controller decided. -/
structure ControllerStep (R : Type) where
  plan : Plan R
  appliedPpm : R
  estimateOffsetS : R
  estimateFreqPpm : Option R
  estimateSdS : R
  samplesUsed : Nat
  verdict : ChangeVerdict R

def registerCapacity : Nat := 64

section

variable {R : Type} [Field R] [LinearOrder R]

/-- `new_register`. -/
def newRegister (config : DisciplineConfig R) : SampleRegister R :=
  (((((SampleRegister.new registerCapacity).setWeightFloorRatio config.weightFloorRatio
    |>.setOffsetWeightFloorRatio config.offsetWeightFloorRatio)
    |>.setOffsetAgeHalflifeS config.offsetAgeHalflifeS)
    |>.setOffsetWeightDispersionK config.offsetWeightDispersionK)
    |>.setSlopeDensityWeighting config.slopeDensityWeighting)
    |>.setAdaptiveWindow config.adaptiveWindow

end

namespace MultiController

variable {R : Type} [Field R] [LinearOrder R]

/-- `MultiController::new`. -/
def new (config : DisciplineConfig R) (sources : Nat) : MultiController R where
  registers := List.replicate (max sources 1) (newRegister config)
  discipline := Discipline.new config
  freqCmdPpm := 0
  drainPpm := 0
  drainRemainingS := 0
  lastPlanMonoS := none
  drainBookedUntil := none
  unapplied := none

/-- `slew_samples` on every register. -/
def slewRegisters (c : MultiController R) (tChange dfreqPpm doffset : R) : MultiController R :=
  { c with registers := c.registers.map fun r => r.slewSamples tChange dfreqPpm doffset }

/-- `revert_last_plan`: whether there was a plan to revert. -/
def revertLastPlan (c : MultiController R) : MultiController R × Bool :=
  match c.unapplied with
  | none => (c, false)
  | some u =>
    ({ c.slewRegisters u.monoS (-u.dfreqPpm) (-u.stepS) with
        freqCmdPpm := u.freqCmdBefore
        drainPpm := u.drainPpmBefore
        drainRemainingS := u.drainRemainingBefore
        unapplied := none }, true)

/-- `confirm_last_plan`. -/
def confirmLastPlan (c : MultiController R) : MultiController R := { c with unapplied := none }

/-- `applied_ppm`. -/
def appliedPpm (c : MultiController R) : R := c.freqCmdPpm + c.drainPpm

/-- `poll_interval_s`. -/
def pollIntervalS (c : MultiController R) : R := exp2i c.discipline.poll

/-- `preload_frequency`. -/
def preloadFrequency (c : MultiController R) (freqPpm : R) : MultiController R :=
  { c with freqCmdPpm := freqPpm }

/-- `retry_interval_s`. -/
def retryIntervalS (c : MultiController R) : R := c.discipline.retryIntervalS

/-- `drain_completes_at`. -/
def drainCompletesAt (c : MultiController R) : Option R :=
  match c.lastPlanMonoS with
  | none => none
  | some last =>
    if c.drainPpm = 0 ∨ c.drainRemainingS ≤ 0 then none
    else some (last + c.drainRemainingS / (|c.drainPpm| * 1e-6))

/-- The end of a drain in `poll_drain`, `last` the time it is booked until. -/
def retireDrain (c : MultiController R) (last monoNowS : R) : MultiController R :=
  let consumed := c.drainPpm * 1e-6 * max (monoNowS - last) 0
  let c := if consumed ≠ 0 then c.slewRegisters monoNowS 0 consumed else c
  { c with
    drainPpm := 0
    drainRemainingS := 0
    lastPlanMonoS := some monoNowS
    drainBookedUntil := some monoNowS }

/-- `poll_drain`. -/
def pollDrain (c : MultiController R) (monoNowS : R) :
    MultiController R × Option (ClockCommand R) :=
  match c.drainCompletesAt with
  | none => (c, none)
  | some completesAt =>
    if monoNowS < completesAt then (c, none)
    else
      match c.drainBookedUntil with
      | none => (c, none)
      | some last => (c.retireDrain last monoNowS, some (.slew c.freqCmdPpm 0 0))

/-- The drain that has run since it was last booked. -/
def drained (c : MultiController R) (monoNowS : R) : R :=
  match c.drainBookedUntil with
  | some last => if c.drainPpm ≠ 0 then c.drainPpm * 1e-6 * max (monoNowS - last) 0 else 0
  | none => 0

/-- `settle_drain`. -/
def settleDrain (c : MultiController R) (monoNowS : R) : MultiController R :=
  let drained := c.drained monoNowS
  let c :=
    if drained ≠ 0 then
      { c.slewRegisters monoNowS 0 drained with
        drainRemainingS := max (c.drainRemainingS - |drained|) 0 }
    else c
  { c with drainBookedUntil := c.drainBookedUntil.map fun _ => monoNowS }

/-- What `estimate` makes of a register of `samples` samples. -/
def estimateFrom (reg : SampleRegister R) (fit : Option (RegressEstimate R)) : Estimate R :=
  match fit with
  | some e =>
    { offsetS := e.offset, freqPpm := e.freqPpm, sdS := max e.offsetSd 1e-7
      samples := reg.len }
  | none =>
    match reg.best with
    | some best =>
      { offsetS := best.offset, freqPpm := none, sdS := max (best.delay / 2.0) 1e-7
        samples := reg.len }
    | none => { offsetS := 0, freqPpm := none, sdS := 1e-3, samples := reg.len }

/-- `estimate`: the regression caches weights in the register it reads. -/
def estimate (std : StdFloat R) (c : MultiController R) (index : Nat) (monoNowS : R) :
    MultiController R × Estimate R :=
  match c.registers[index]? with
  | none => (c, { offsetS := 0, freqPpm := none, sdS := 1e-3, samples := 0 })
  | some reg =>
    let (reg', fit) := reg.regress std monoNowS
    ({ c with registers := c.registers.set index reg' }, estimateFrom reg' fit)

/-- `observe`. -/
def observe (std : StdFloat R) (c : MultiController R) (index : Nat) (monoNowS : R)
    (sample : Sample R) : MultiController R × Estimate R :=
  let c := c.settleDrain monoNowS
  let c := { c with registers := c.registers.modify index fun r => r.push sample }
  c.estimate std index monoNowS

/-- The drain a command starts. -/
def drainOf : ClockCommand R → R × R
  | .step _ => (0, 0)
  | .slew _ drainOffset drainRatePpm => (copysign drainRatePpm drainOffset, |drainOffset|)

/-- The seconds a command steps by. -/
def stepOf : ClockCommand R → R
  | .step addSeconds => addSeconds
  | .slew _ _ _ => 0

/-- `steer`. -/
def steer (c : MultiController R) (est : Estimate R) (monoNowS : R) (leapPending : Bool) :
    MultiController R × ControllerStep R :=
  let (discipline, plan) :=
    c.discipline.onEstimateWithLeap est.offsetS est.freqPpm est.sdS leapPending
  let freqCmdNew := discipline.freqPpm
  let dfreqPpm := freqCmdNew - c.freqCmdPpm
  let stepS := stepOf plan.command
  let (drainPpm, drainRemainingS) := drainOf plan.command
  let steered : MultiController R :=
    { c.slewRegisters monoNowS dfreqPpm stepS with
      discipline := discipline
      freqCmdPpm := freqCmdNew
      drainPpm := drainPpm
      drainRemainingS := drainRemainingS
      lastPlanMonoS := some monoNowS
      drainBookedUntil := some monoNowS
      unapplied := some
        { monoS := monoNowS
          dfreqPpm := dfreqPpm
          stepS := stepS
          freqCmdBefore := c.freqCmdPpm
          drainPpmBefore := c.drainPpm
          drainRemainingBefore := c.drainRemainingS } }
  (steered,
    { plan := plan
      appliedPpm := steered.appliedPpm
      estimateOffsetS := est.offsetS
      estimateFreqPpm := est.freqPpm
      estimateSdS := est.sdS
      samplesUsed := est.samples
      verdict := plan.verdict })

end MultiController

/-- One source driving one clock: the controller of one register. -/
structure SyncController (R : Type) where
  inner : MultiController R

namespace SyncController

variable {R : Type} [Field R] [LinearOrder R]

/-- `SyncController::new`. -/
def new (config : DisciplineConfig R) : SyncController R where
  inner := MultiController.new config 1

/-- `on_sample_with_leap`. -/
def onSampleWithLeap (std : StdFloat R) (c : SyncController R) (monoNowS : R) (sample : Sample R)
    (leapPending : Bool) : SyncController R × ControllerStep R :=
  let (inner, est) := c.inner.observe std 0 monoNowS sample
  let (inner, step) := inner.steer est monoNowS leapPending
  (⟨inner⟩, step)

def revertLastPlan (c : SyncController R) : SyncController R × Bool :=
  let (inner, reverted) := c.inner.revertLastPlan
  (⟨inner⟩, reverted)

def confirmLastPlan (c : SyncController R) : SyncController R := ⟨c.inner.confirmLastPlan⟩

def freqPpm (c : SyncController R) : R := c.inner.freqCmdPpm

def appliedPpm (c : SyncController R) : R := c.inner.appliedPpm

def preloadFrequency (c : SyncController R) (freqPpm : R) : SyncController R :=
  ⟨c.inner.preloadFrequency freqPpm⟩

def drainCompletesAt (c : SyncController R) : Option R := c.inner.drainCompletesAt

def pollDrain (c : SyncController R) (monoNowS : R) :
    SyncController R × Option (ClockCommand R) :=
  let (inner, command) := c.inner.pollDrain monoNowS
  (⟨inner⟩, command)

end SyncController

end RustyTime
