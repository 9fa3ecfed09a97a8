import RustyTime.Core.Client

/-!
# A clock, and one controller that measures it perfectly

The clock's error `e` obeys `de/dt = (F + applied_ppm) * 1e-6` in the controller's monotonic
time, and a `Step` adds its amount. Samples are taken at their own time with offset `-e` and
one delay. Time passes only as far as the end of a running drain, where `poll_drain` is due.
-/

namespace RustyTime

variable {R : Type}

/-- The clock, its controller, and what of the past the assumptions are about. -/
structure Plant (R : Type) where
  now : R
  error : R
  controller : SyncController R
  lastSample : Option R
  /-- A plan has used a frequency measurement. -/
  locked : Bool

inductive Plant.Event (R : Type) where
  | wait (t : R)
  | sample (t dispersion : R) (leapPending : Bool)
  | pollDrain (t : R)

def Plant.Event.t : Event R → R
  | .wait t => t
  | .sample t _ _ => t
  | .pollDrain t => t

variable [Field R] [LinearOrder R]

/-- Whether a plan accumulated the frequency its estimate measured. -/
def ControllerStep.usesFrequency (d : Discipline R) (step : ControllerStep R) : Bool :=
  match step.plan.command, step.verdict with
  | .slew _ _ _, .accepted =>
    step.estimateFreqPpm.isSome && !decide (freqTrustSlewShare < d.lastDrainShare)
  | _, _ => false

theorem ControllerStep.usesFrequency_step (step : ControllerStep R) {d : Discipline R}
    {addSeconds : R} (h : step.plan.command = .step addSeconds) :
    step.usesFrequency d = false := by
  unfold usesFrequency
  rw [h]

theorem ControllerStep.usesFrequency_refused (step : ControllerStep R) {d : Discipline R}
    (h : step.verdict ≠ .accepted) : step.usesFrequency d = false := by
  unfold usesFrequency
  split
  · exact absurd (by assumption) h
  · rfl

theorem ControllerStep.usesFrequency_slew (step : ControllerStep R) {d : Discipline R}
    {freqPpm offset rate : R} (h : step.plan.command = .slew freqPpm offset rate)
    (hv : step.verdict = .accepted) :
    step.usesFrequency d
      = (step.estimateFreqPpm.isSome && !decide (freqTrustSlewShare < d.lastDrainShare)) := by
  unfold usesFrequency
  rw [h, hv]

/-- The regression behind the estimate of a sample. -/
def SyncController.regressionAt (std : StdFloat R) (c : SyncController R) (t : R)
    (sample : Sample R) : Option (RegressEstimate R) :=
  match (c.inner.settleDrain t).registers[0]? with
  | none => none
  | some reg => ((reg.push sample).regress std t).2

namespace Plant

/-- A controller of no history, with a preloaded frequency or 0. -/
def start (config : DisciplineConfig R) (preload now error : R) : Plant R where
  now := now
  error := error
  controller := (SyncController.new config).preloadFrequency preload
  lastSample := none
  locked := false

/-- Time passes. -/
def advance (F : R) (p : Plant R) (t : R) : Plant R :=
  { p with
    now := t
    error := p.error + (F + p.controller.appliedPpm) * 1e-6 * (t - p.now) }

/-- The perfect measurement. -/
def measure (delay : R) (p : Plant R) (dispersion : R) : Sample R :=
  { t := p.now, offset := -p.error, delay := delay, dispersion := dispersion }

/-- An event at the present. -/
def act (std : StdFloat R) (delay : R) (p : Plant R) : Event R → Plant R
  | .wait _ => p
  | .sample _ dispersion leapPending =>
    let (c, step) :=
      p.controller.onSampleWithLeap std p.now (p.measure delay dispersion) leapPending
    { now := p.now
      error := p.error + MultiController.stepOf step.plan.command
      controller := c
      lastSample := some p.now
      locked := p.locked || step.usesFrequency p.controller.inner.discipline }
  | .pollDrain _ => { p with controller := (p.controller.pollDrain p.now).1 }

def step (std : StdFloat R) (F delay : R) (p : Plant R) (ev : Event R) : Plant R :=
  (p.advance F ev.t).act std delay ev

def run (std : StdFloat R) (F delay : R) (p : Plant R) (evs : List (Event R)) : Plant R :=
  evs.foldl (step std F delay) p

/-- Time does not go back, no drain is overrun, and samples are a second apart. -/
def Allows (p : Plant R) (ev : Event R) : Prop :=
  p.now ≤ ev.t ∧ (∀ completesAt, p.controller.drainCompletesAt = some completesAt →
    ev.t ≤ completesAt) ∧
  match ev with
  | .sample t _ _ => ∀ last, p.lastSample = some last → last + 1 ≤ t
  | _ => True

def Proper (std : StdFloat R) (F delay : R) (p : Plant R) : List (Event R) → Prop
  | [] => True
  | ev :: evs => p.Allows ev ∧ Proper std F delay (p.step std F delay ev) evs

/-- A condition on what an option may hold. -/
def decidableOfSome {α : Type} (o : Option α) (P : α → Prop) [DecidablePred P] :
    Decidable (∀ a, o = some a → P a) :=
  match o with
  | none => isTrue fun _ h => nomatch h
  | some a => decidable_of_iff (P a) ⟨fun h _ he => Option.some.inj he ▸ h, fun h => h a rfl⟩

instance (p : Plant R) (ev : Event R) : Decidable (p.Allows ev) :=
  have := decidableOfSome p.controller.drainCompletesAt fun completesAt => ev.t ≤ completesAt
  match ev with
  | .sample t _ _ =>
    have := decidableOfSome p.lastSample fun last => last + 1 ≤ t
    inferInstanceAs (Decidable (_ ∧ _ ∧ _))
  | .wait _ => inferInstanceAs (Decidable (_ ∧ _ ∧ True))
  | .pollDrain _ => inferInstanceAs (Decidable (_ ∧ _ ∧ True))

instance decidableProper (std : StdFloat R) (F delay : R) :
    (p : Plant R) → (evs : List (Event R)) → Decidable (Proper std F delay p evs)
  | _, [] => isTrue trivial
  | p, ev :: evs =>
    have := decidableProper std F delay (p.step std F delay ev) evs
    inferInstanceAs (Decidable (_ ∧ _))

end Plant

end RustyTime
