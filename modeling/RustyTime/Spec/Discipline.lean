import RustyTime.Properties.Discipline

/-!
# Runs of the discipline, and what of them is on record

A run is a list of calls: estimates, and the retries of failed exchanges. The record keeps every
plan beside the state it left, latest first. `Outcome` lists the ways through one estimate, with
the tests that lead there; what a run keeps is derived from it.
-/

namespace RustyTime

/-- The arguments of `on_estimate_with_leap`. -/
structure Feed (R : Type) where
  offset : R
  freqPpmMeas : Option R
  offsetSd : R
  leapPending : Bool

/-- A call of the discipline. -/
inductive DisciplineCall (R : Type) where
  | estimate (feed : Feed R)
  /-- `retry_interval_s`, which reads the state and no more. -/
  | retry

def DisciplineCall.isEstimate {R : Type} : DisciplineCall R → Bool
  | .estimate _ => true
  | .retry => false

/-- `matches!(command, ClockCommand::Slew { .. })`. -/
def ClockCommand.isSlew {R : Type} : ClockCommand R → Bool
  | .slew _ _ _ => true
  | .step _ => false

variable {R : Type} [Field R] [LinearOrder R]

/-- A frequency corrected by an amount, within the ceiling. -/
def DisciplineConfig.correct (cfg : DisciplineConfig R) (freqPpm amount : R) : R :=
  clamp (-cfg.maxFreqPpm) cfg.maxFreqPpm (freqPpm + amount)

namespace Discipline

def feed (d : Discipline R) (f : Feed R) : Discipline R × Plan R :=
  d.onEstimateWithLeap f.offset f.freqPpmMeas f.offsetSd f.leapPending

/-- The update is counted before anything is decided. -/
def counted (d : Discipline R) : Discipline R := { d with updates := d.updates + 1 }

/-- An announced leap second is stepped, ahead of every other test. -/
def stepsLeap (d : Discipline R) (f : Feed R) : Bool :=
  decide (d.leapExempt f.offset f.leapPending = true ∧ d.cfg.leapMode = .step)

/-- The maximum-change guard turns the estimate down. -/
def refuses (d : Discipline R) (f : Feed R) : Bool :=
  d.exceedsMaxChange f.offset (d.leapExempt f.offset f.leapPending)

/-- The estimate gets as far as the frequency update. -/
def reachesFreq (d : Discipline R) (f : Feed R) : Bool :=
  !d.stepsLeap f && !d.refuses f && !d.stepsAway f.offset

/-! ### What an estimate corrects the frequency by -/

/-- The measured frequency, where it is accumulated: the estimate gets that far, and the last drain
on record did not haul the clock. -/
def measured (d : Discipline R) (f : Feed R) : Option R :=
  if d.counted.reachesFreq f = true ∧ ¬freqTrustSlewShare < d.lastDrainShare then f.freqPpmMeas
  else none

/-- The integral trim, where there is one: what the slow average of the offsets implies. -/
def trim (d : Discipline R) (f : Feed R) : Option R :=
  let average := (d.averageOffset f.offset).offsetEwma
  if d.counted.reachesFreq f = true ∧ d.cfg.freqIntegralGain ≠ 0 ∧
      acquireUpdates < d.counted.updates ∧ max f.offsetSd 1e-7 < |average| then
    some (d.cfg.freqIntegralGain * (average / (corrTimeRatioDefault * d.peekPollInterval) * 1e6))
  else none

/-- The corrections of one estimate, in order. None depends on the frequency itself. -/
def moves (d : Discipline R) (f : Feed R) : List R := (d.measured f).toList ++ (d.trim f).toList

/-- The ways through one estimate, `d` counting it. -/
inductive Outcome (d : Discipline R) (f : Feed R) : Discipline R × Plan R → Prop
  | leap (hleap : d.stepsLeap f = true) :
    Outcome d f ({ d with stableStreak := 0, changeRefusals := 0 }.emit (.step f.offset) true
      .accepted)
  | refuse (hrefuses : d.refuses f = true) (hleap : d.stepsLeap f = false) :
    Outcome d f (d.refuse f.offset)
  | step (haway : d.stepsAway f.offset = true) (hrefuses : d.refuses f = false)
      (hleap : d.stepsLeap f = false) :
    Outcome d f ({ d with changeRefusals := 0, stableStreak := 0 }.emit (.step f.offset) true
      .accepted)
  | slew (hreaches : d.reachesFreq f = true) :
    Outcome d f ({ d with changeRefusals := 0 }.planSlew f.offset f.freqPpmMeas f.offsetSd)

/-- One estimate, test by test. -/
theorem feed_eq (d : Discipline R) (f : Feed R) :
    d.feed f =
      if d.counted.stepsLeap f = true then
        { d.counted with stableStreak := 0, changeRefusals := 0 }.emit (.step f.offset) true
          .accepted
      else if d.counted.refuses f = true then d.counted.refuse f.offset
      else if d.counted.stepsAway f.offset = true then
        { d.counted with changeRefusals := 0, stableStreak := 0 }.emit (.step f.offset) true
          .accepted
      else { d.counted with changeRefusals := 0 }.planSlew f.offset f.freqPpmMeas f.offsetSd := by
  simp only [stepsLeap, refuses, decide_eq_true_eq]
  unfold feed onEstimateWithLeap
  simp only [Bool.decide_eq_true]
  rfl

/-- **One estimate takes one of the ways.** -/
theorem feed_outcome (d : Discipline R) (f : Feed R) : Outcome d.counted f (d.feed f) := by
  rw [feed_eq]
  split
  · next hleap => exact .leap hleap
  · next hleap =>
    rw [Bool.not_eq_true] at hleap
    split
    · next hrefuses => exact .refuse hrefuses hleap
    · next hrefuses =>
      rw [Bool.not_eq_true] at hrefuses
      split
      · next haway => exact .step haway hrefuses hleap
      · next haway => exact .slew (by simp [reachesFreq, hleap, hrefuses, haway])

end Discipline

/-! ## Runs -/

/-- A run of the discipline, and its record. -/
structure DisciplineRun (R : Type) where
  state : Discipline R
  /-- The outcome of every estimate, latest first. -/
  log : List (Discipline R × Plan R)

namespace DisciplineRun

variable {R : Type} [Field R] [LinearOrder R]

def start (cfg : DisciplineConfig R) : DisciplineRun R := ⟨Discipline.new cfg, []⟩

def step (r : DisciplineRun R) : DisciplineCall R → DisciplineRun R
  | .estimate f => ⟨(r.state.feed f).1, r.state.feed f :: r.log⟩
  | .retry => r

def run (cfg : DisciplineConfig R) (calls : List (DisciplineCall R)) : DisciplineRun R :=
  calls.foldl step (start cfg)

/-- The refusals in a row with which a record ends. -/
def refusalsInARow (log : List (Discipline R × Plan R)) : Nat :=
  (log.takeWhile fun out => !out.2.verdict.isAccepted).length

/-- The drain rate of an accepted slew. -/
def slewRate (plan : Plan R) : Option R :=
  match plan.verdict, plan.command with
  | .accepted, .slew _ _ rate => some rate
  | _, _ => none

/-- The drain rate of the last accepted slew. -/
def lastRate (log : List (Discipline R × Plan R)) : Option R :=
  log.findSome? fun out => slewRate out.2

/-- A rate that hauls the clock. -/
def hauls (r : DisciplineRun R) (rate : R) : Bool :=
  decide (freqTrustSlewShare * r.state.cfg.maxSlewPpm < rate)

/-- The plan emitted last was a slew that hauls. A step drains nothing. -/
def followsHaul (r : DisciplineRun R) : Bool :=
  match r.log with
  | [] => false
  | out :: _ =>
    match out.2.command with
    | .slew _ _ rate => r.hauls rate
    | .step _ => false

/-- The last slew that was accepted hauled, but the plan emitted last does not. -/
def staleHaul (r : DisciplineRun R) : Bool :=
  (lastRate r.log).any r.hauls && !r.followsHaul

/-- A frequency after the integral trim of an estimate, which without a gain is no other. -/
def trimmed (r : DisciplineRun R) (f : Feed R) (freqPpm : R) : R :=
  (r.state.trim f).elim freqPpm (r.state.cfg.correct freqPpm)

/-- A frequency measured right after a haul is withheld, any other is accumulated; the trim
follows either. -/
def Withholds (r : DisciplineRun R) : DisciplineCall R → Prop
  | .estimate f =>
    r.state.counted.reachesFreq f = true → ∀ fm, f.freqPpmMeas = some fm →
      (r.step (.estimate f)).state.freqPpm = r.trimmed f
        (if r.followsHaul then r.state.freqPpm else r.state.cfg.correct r.state.freqPpm fm)
  | .retry => True

/-- No measurement that would move the frequency meets a haul that is over. -/
def NotStale (r : DisciplineRun R) : DisciplineCall R → Prop
  | .estimate f =>
    r.state.counted.reachesFreq f = true → ∀ fm, f.freqPpmMeas = some fm → r.staleHaul = true →
      r.trimmed f (r.state.cfg.correct r.state.freqPpm fm) = r.trimmed f r.state.freqPpm
  | .retry => True

/-- The invariant rule: what the start has and every call keeps, every run has. -/
theorem run_induction {Inv : DisciplineRun R → Prop} {cfg : DisciplineConfig R}
    (hstart : Inv (start cfg)) (hstep : ∀ r f, Inv r → Inv (r.step (.estimate f)))
    (calls : List (DisciplineCall R)) : Inv (run cfg calls) := by
  have hfold : ∀ calls : List (DisciplineCall R), ∀ r, Inv r → Inv (calls.foldl step r) := by
    intro calls
    induction calls with
    | nil => exact fun _ h => h
    | cons call calls ih =>
      intro r h
      refine ih _ ?_
      cases call with
      | estimate f => exact hstep r f h
      | retry => exact h
  exact hfold calls _ hstart

end DisciplineRun

end RustyTime
