import Mathlib.Data.Rat.Floor
import RustyTime.Infra.Run
import RustyTime.Properties.Client
import RustyTime.Properties.Discipline
import RustyTime.Properties.Linux
import RustyTime.Spec.Sync

/-!
# The controller's books and the clock

* `run_tracks_iff` — the clock runs at `applied_ppm` after every booked command of a run,
  exactly when no step is applied while a drain is installed
* `holdIfNoMajority_holdsTrue_iff` — a hold keeps the books true exactly when no drain is running
* `retire_refused` — a refused retirement always takes the drain off the books
-/

namespace RustyTime

set_option linter.unusedSectionVars false

variable {R : Type} [Field R] [LinearOrder R]

namespace MultiController

variable {c : MultiController R}

/-! ## What the controller's operations do to its command -/

/-- The commanded frequency is the discipline's. -/
def Coherent (c : MultiController R) : Prop := c.discipline.freqPpm = c.freqCmdPpm

theorem new_coherent (config : DisciplineConfig R) (sources : Nat) :
    Coherent (new config sources) := rfl

/-- A plan is a step at the frequency in force, or a slew whose drain the books carry. -/
theorem steer_command (hc : c.Coherent) (est : Estimate R) (monoNowS : R) (leapPending : Bool) :
    (c.steer est monoNowS leapPending).1.Coherent ∧
      ((∃ addSeconds, (c.steer est monoNowS leapPending).2.plan.command = .step addSeconds ∧
          (c.steer est monoNowS leapPending).1.freqCmdPpm = c.freqCmdPpm ∧
          (c.steer est monoNowS leapPending).1.drainPpm = 0) ∨
        ∃ drainOffset drainRatePpm, (c.steer est monoNowS leapPending).2.plan.command =
            .slew (c.steer est monoNowS leapPending).1.freqCmdPpm drainOffset drainRatePpm ∧
          (c.steer est monoNowS leapPending).1.drainPpm = copysign drainRatePpm drainOffset) := by
  refine ⟨rfl, ?_⟩
  unfold steer
  dsimp only
  rcases c.discipline.onEstimateWithLeap_cases est.offsetS est.freqPpm est.sdS leapPending with
    h | h | h
  · refine .inl ⟨_, h.command, h.freqPpm.trans hc, ?_⟩
    rw [h.command]
    rfl
  · refine .inr ⟨0, 0, h.command.trans ?_, ?_⟩
    · rw [h.freqPpm]
    · rw [h.command]
      rfl
  · refine .inr ⟨_, _, h.command, ?_⟩
    rw [h.command]
    rfl

end MultiController

namespace SyncLoop

variable [FloorRing R] {opts : SyncOptions R} {std : StdFloat R} {nominalTickUs : Int}

/-! ## One event -/

/-- What is known of an event's command: the driver takes it, and can deliver it. -/
def AppliesAtOnce (opts : SyncOptions R) (std : StdFloat R) (nominalTickUs : Int)
    (s : SyncLoop R) (ev : SyncEvent R) : Prop :=
  ev.ok = true ∧ ∀ deed ∈ (s.step opts std nominalTickUs ev).2, deed.command.InRange nominalTickUs

/-- After a booked command the clock runs at what the controller believes. -/
def BooksTrack (opts : SyncOptions R) (std : StdFloat R) (nominalTickUs : Int) (s : SyncLoop R)
    (ev : SyncEvent R) : Prop :=
  ∀ deed ∈ (s.step opts std nominalTickUs ev).2, deed.Booked →
    (s.step opts std nominalTickUs ev).1.Tracks nominalTickUs

/-- A step is applied only while no drain is installed. -/
def StepsUndrained (opts : SyncOptions R) (std : StdFloat R) (nominalTickUs : Int)
    (s : SyncLoop R) (ev : SyncEvent R) : Prop :=
  ∀ deed ∈ (s.step opts std nominalTickUs ev).2, deed.steps ≠ none → s.Undrained nominalTickUs

/-- The clock after a command, if it was given one. -/
def drive (nominalTickUs : Int) (clock : SystemClock) (deed : Option (Deed R)) : SystemClock :=
  match deed with
  | none => clock
  | some deed => clock.apply nominalTickUs deed.command

/-- What one event does to the clock and to the controller's command. -/
structure Obeys (nominalTickUs : Int) (s : SyncLoop R) (out : SyncLoop R × Option (Deed R)) :
    Prop where
  coherent : out.1.ctl.Coherent
  driver : out.1.driver = drive nominalTickUs s.driver out.2
  /-- The end of a drain, a hold, a step, or a slew whose drain is booked. -/
  books : ∀ deed ∈ out.2, deed.Booked →
    deed.steps ≠ none ∧ out.1.ctl.appliedPpm = s.ctl.freqCmdPpm ∨
      deed.steps = none ∧ ∃ freqPpm drainOffset drainRatePpm,
        deed.command = .slew freqPpm drainOffset drainRatePpm ∧
        out.1.ctl.appliedPpm = freqPpm + copysign drainRatePpm drainOffset

/-- What changes neither the clock nor the frequency commanded can come before. -/
theorem Obeys.of_same {s s' : SyncLoop R} {out : SyncLoop R × Option (Deed R)}
    (h : Obeys nominalTickUs s' out) (hdriver : s'.driver = s.driver)
    (hfreq : s'.ctl.freqCmdPpm = s.ctl.freqCmdPpm) : Obeys nominalTickUs s out := by
  obtain ⟨hcoherent, hdrives, hbooks⟩ := h
  refine ⟨hcoherent, ?_, ?_⟩
  · rw [← hdriver]
    exact hdrives
  · rw [← hfreq]
    exact hbooks

theorem copysign_zero_zero [IsStrictOrderedRing R] : copysign (0 : R) 0 = 0 := by
  unfold copysign
  rw [if_neg (lt_irrefl 0), abs_zero]

theorem retire_obeys [IsStrictOrderedRing R] {s : SyncLoop R} {monoS : R}
    (hs : s.ctl.Coherent) (hdry : opts.dryRun = false) :
    Obeys nominalTickUs s (s.retire opts nominalTickUs monoS true) := by
  unfold retire
  split
  · exact ⟨hs, rfl, fun _ h => absurd h.symm (Option.some_ne_none _)⟩
  · rcases s.ctl.pollDrain_cases monoS with h | ⟨-, ⟨last, -, hctl⟩, hcommand⟩
    · rw [h]
      exact ⟨hs, rfl, fun _ h => absurd h.symm (Option.some_ne_none _)⟩
    · have hout : s.ctl.pollDrain monoS =
          (s.ctl.retireDrain last monoS, some (.slew s.ctl.freqCmdPpm 0 0)) :=
        Prod.ext hctl hcommand
      rw [hout, hdry]
      refine ⟨?_, rfl, ?_⟩
      · show (s.ctl.retireDrain last monoS).Coherent
        rw [MultiController.Coherent, MultiController.retireDrain_discipline,
          MultiController.retireDrain_freqCmdPpm]
        exact hs
      · rintro _ ⟨⟩ -
        refine .inr ⟨rfl, s.ctl.freqCmdPpm, 0, 0, rfl, ?_⟩
        show (s.ctl.retireDrain last monoS).appliedPpm = _
        rw [MultiController.appliedPpm, MultiController.retireDrain_freqCmdPpm,
          MultiController.retireDrain_drainPpm, copysign_zero_zero]

theorem holdIfNoMajority_obeys {s : SyncLoop R} {selected : Option Nat}
    (hs : s.ctl.Coherent) (hdry : opts.dryRun = false) :
    Obeys nominalTickUs s (s.holdIfNoMajority opts nominalTickUs selected true) := by
  unfold holdIfNoMajority
  split
  · exact ⟨hs, rfl, fun _ h => absurd h.symm (Option.some_ne_none _)⟩
  · rw [hdry]
    refine ⟨hs, rfl, ?_⟩
    rintro _ ⟨⟩ hbooked
    exact hbooked.elim

/-- A plan carried out: the clock takes its command, and the controller stays as steered. -/
theorem execute_cases {s : SyncLoop R} (index : Nat) (source : Source R)
    (step : ControllerStep R) {p : Poll R} (hdry : opts.dryRun = false) (hok : p.ok = true)
    (hexited : s.exited = false) :
    (s.execute opts nominalTickUs index source step p).2 = none ∧
        (s.execute opts nominalTickUs index source step p).1.driver = s.driver ∧
        (s.execute opts nominalTickUs index source step p).1.ctl = s.ctl ∨
      ∃ d, (s.execute opts nominalTickUs index source step p).2 = some (.published d) ∧
        d.command = step.plan.command ∧
        (s.execute opts nominalTickUs index source step p).1.driver =
          s.driver.apply nominalTickUs step.plan.command ∧
        (s.execute opts nominalTickUs index source step p).1.ctl = s.ctl.confirmLastPlan := by
  have hpublish : ∀ (s : SyncLoop R) (answer : Option Bool),
      (s.publish source step answer p).driver = s.driver ∧
        (s.publish source step answer p).ctl = s.ctl := by
    intro s answer
    obtain ⟨_, _, _, heq⟩ := publish_eq s source step answer p
    rw [heq]
    exact ⟨rfl, rfl⟩
  unfold execute
  split
  · exact .inl ⟨rfl, rfl, rfl⟩
  · rw [hok]
    unfold commit
    rw [hdry]
    dsimp only
    rw [if_neg Bool.false_ne_true, if_pos rfl]
    dsimp only
    rw [if_neg (by rw [hexited]; exact Bool.false_ne_true)]
    exact .inr ⟨_, rfl, rfl, (hpublish _ _).1, (hpublish _ _).2⟩

/-- A steered controller's plan, carried out. -/
theorem execute_obeys {s₀ s : SyncLoop R} {index : Nat} {source : Source R}
    {step : ControllerStep R} {p : Poll R} (hdry : opts.dryRun = false) (hok : p.ok = true)
    (hexited : s.exited = false) (hdriver₀ : s.driver = s₀.driver) (hs : s.ctl.Coherent)
    (hplan : (∃ addSeconds, step.plan.command = .step addSeconds ∧
        s.ctl.freqCmdPpm = s₀.ctl.freqCmdPpm ∧ s.ctl.drainPpm = 0) ∨
      ∃ drainOffset drainRatePpm,
        step.plan.command = .slew s.ctl.freqCmdPpm drainOffset drainRatePpm ∧
        s.ctl.drainPpm = copysign drainRatePpm drainOffset) :
    Obeys nominalTickUs s₀ (s.execute opts nominalTickUs index source step p) := by
  rcases execute_cases index source step hdry hok hexited with
    ⟨hnone, hdriver, hctl⟩ | ⟨d, hd, hcommand, hdriver, hctl⟩
  · -- the plan gave up: nothing reaches the clock
    refine ⟨?_, ?_, ?_⟩
    · rw [hctl]
      exact hs
    · rw [hnone]
      exact hdriver.trans hdriver₀
    · rw [hnone]
      exact fun _ h => absurd h.symm (Option.some_ne_none _)
  · refine ⟨?_, ?_, ?_⟩
    · rw [hctl]
      exact hs
    · rw [hd, hdriver, hdriver₀]
      exact congrArg _ hcommand.symm
    · rw [hd, hctl]
      rintro _ ⟨⟩ -
      have happlied : s.ctl.confirmLastPlan.appliedPpm = s.ctl.freqCmdPpm + s.ctl.drainPpm := rfl
      rcases hplan with ⟨addSeconds, hstep, hfreq, hzero⟩ | ⟨offset, rate, hslew, hdrain⟩
      · left
        constructor
        · rw [Deed.steps, hcommand, hstep]
          exact Option.some_ne_none _
        · rw [happlied, hfreq, hzero, add_zero]
      · right
        constructor
        · rw [Deed.steps, hcommand, hslew]
        · refine ⟨_, offset, rate, hcommand.trans hslew, ?_⟩
          rw [happlied, hdrain]

theorem choose_obeys {s : SyncLoop R} {index : Nat} {source : Source R} {est : Estimate R}
    {monoS : R} {p : Poll R} (hs : s.ctl.Coherent) (hdry : opts.dryRun = false)
    (hok : p.ok = true) (hexited : s.exited = false) :
    Obeys nominalTickUs s (s.choose opts nominalTickUs index source est monoS p) := by
  unfold choose
  dsimp only
  split
  · obtain ⟨hcoherent, hplan⟩ := s.ctl.steer_command hs est monoS source.leapPending
    exact execute_obeys hdry hok hexited rfl hcoherent hplan
  · rw [hok]
    refine Obeys.of_same (holdIfNoMajority_obeys ?_ hdry) ?_ ?_
    · exact hs
    · rfl
    · rfl

theorem poll_obeys {s : SyncLoop R} {index : Nat} {p : Poll R} (hs : s.ctl.Coherent)
    (hdry : opts.dryRun = false) (hok : p.ok = true) (hexited : s.exited = false) :
    Obeys nominalTickUs s (s.poll opts std nominalTickUs index p) := by
  have hnone : ∀ deed ∈ (none : Option (Deed R)), deed.Booked →
      deed.steps ≠ none ∧ s.ctl.appliedPpm = s.ctl.freqCmdPpm ∨
        deed.steps = none ∧ ∃ freqPpm drainOffset drainRatePpm,
          deed.command = .slew freqPpm drainOffset drainRatePpm ∧
          s.ctl.appliedPpm = freqPpm + copysign drainRatePpm drainOffset :=
    fun _ h => absurd h.symm (Option.some_ne_none _)
  unfold poll
  split
  · exact ⟨hs, rfl, hnone⟩
  · split
    · exact ⟨hs, rfl, hnone⟩
    · split
      · split
        · exact ⟨hs, rfl, hnone⟩
        · next source sample stratum rootDistance _ _ monoS _ =>
          have hc : (s.ctl.observe std index monoS sample).1.Coherent := by
            rw [MultiController.Coherent, MultiController.observe_discipline,
              MultiController.observe_freqCmdPpm]
            exact hs
          refine Obeys.of_same (choose_obeys ?_ hdry hok ?_) ?_ ?_
          · exact hc
          · exact hexited
          · rfl
          · exact MultiController.observe_freqCmdPpm
      · exact ⟨hs, rfl, hnone⟩

theorem expire_ctl (s : SyncLoop R) (checkedS : R) :
    (s.expire opts checkedS).ctl = s.ctl ∧ (s.expire opts checkedS).driver = s.driver := by
  obtain ⟨_, _, heq⟩ := expire_eq opts s checkedS
  rw [heq]
  exact ⟨rfl, rfl⟩

theorem step_obeys [IsStrictOrderedRing R] {s : SyncLoop R} {ev : SyncEvent R}
    (hs : s.ctl.Coherent) (hdry : opts.dryRun = false) (hok : ev.ok = true) :
    Obeys nominalTickUs s (s.step opts std nominalTickUs ev) := by
  unfold step
  split
  · exact ⟨hs, rfl, fun _ h => absurd h.symm (Option.some_ne_none _)⟩
  · next hexited =>
    cases ev with
    | head checkedS monoS ok =>
      obtain ⟨hctl, hdriver⟩ := expire_ctl s checkedS
      obtain rfl : ok = true := hok
      refine Obeys.of_same (retire_obeys ?_ hdry) hdriver ?_
      · rw [hctl]
        exact hs
      · rw [hctl]
    | poll index p => exact poll_obeys hs hdry hok (Bool.eq_false_of_not_eq_true hexited)

/-! ## Runs -/

theorem booked_of_steps {deed : Deed R} (h : deed.steps ≠ none) : deed.Booked := by
  cases deed with
  | held command => exact absurd rfl h
  | retired command => trivial
  | published d => trivial

/-- A step leaves the installed frequency where it was. -/
theorem drive_of_steps {deed : Deed R} {clock : SystemClock} (h : deed.steps ≠ none) :
    (drive nominalTickUs clock (some deed)).installedPpm (R := R) nominalTickUs =
      clock.installedPpm nominalTickUs := by
  cases deed with
  | held command => exact absurd rfl h
  | retired command => exact absurd rfl h
  | published d =>
    cases hc : d.command with
    | step addSeconds =>
      rw [drive, Deed.command, hc]
      exact apply_step_installed clock addSeconds
    | slew f o r =>
      rw [Deed.steps, hc] at h
      exact absurd rfl h

/-- One booked command tracks, unless it is a step over an installed drain. -/
theorem booksTrack_iff [IsStrictOrderedRing R] {s : SyncLoop R} {ev : SyncEvent R}
    (hs : s.ctl.Coherent) (hdry : opts.dryRun = false)
    (hev : AppliesAtOnce opts std nominalTickUs s ev) :
    BooksTrack opts std nominalTickUs s ev ↔ StepsUndrained opts std nominalTickUs s ev := by
  obtain ⟨hok, hrange⟩ := hev
  obtain ⟨-, hdriver, hbooks⟩ := step_obeys hs hdry hok
  refine forall₂_congr ?_
  intro deed hdeed
  have hrange := hrange deed hdeed
  have hbooks := hbooks deed hdeed
  rw [Option.mem_def.mp hdeed] at hdriver
  constructor
  · intro htrack hsteps
    rcases hbooks (booked_of_steps hsteps) with ⟨-, happlied⟩ | ⟨hnone, -⟩
    · have h := htrack (booked_of_steps hsteps)
      rw [Tracks, hdriver, happlied, drive_of_steps hsteps] at h
      exact h
    · exact absurd hnone hsteps
  · intro hundrained hbooked
    rcases hbooks hbooked with ⟨hsteps, happlied⟩ | ⟨-, f, o, r, hcommand, happlied⟩
    · rw [Tracks, hdriver, happlied, drive_of_steps hsteps]
      exact hundrained hsteps
    · rw [Tracks, hdriver, happlied, drive, hcommand]
      rw [hcommand] at hrange
      exact apply_slew_installed s.driver hrange

/-- **The clock runs at what the controller believes after every booked command of a run, exactly
when no step of it is applied while a drain is installed.** -/
theorem run_tracks_iff [IsStrictOrderedRing R] (opts : SyncOptions R) (std : StdFloat R)
    (nominalTickUs : Int) (sources : List (Source R)) (now : R) (evs : List (SyncEvent R))
    (hdry : opts.dryRun = false)
    (hevs : Infra.Run.Along (fun s ev => (step opts std nominalTickUs s ev).1)
      (AppliesAtOnce opts std nominalTickUs) (start opts sources nominalTickUs now) evs) :
    Infra.Run.Along (fun s ev => (step opts std nominalTickUs s ev).1)
        (BooksTrack opts std nominalTickUs) (start opts sources nominalTickUs now) evs ↔
      Infra.Run.Along (fun s ev => (step opts std nominalTickUs s ev).1)
        (StepsUndrained opts std nominalTickUs) (start opts sources nominalTickUs now) evs := by
  refine Infra.Run.along_iff (fun s => s.ctl.Coherent) ?_ ?_ ?_ hevs
  · intro s ev hs hev
    exact (step_obeys hs hdry hev.1).coherent
  · intro s ev hs hev
    exact booksTrack_iff hs hdry hev
  · exact MultiController.new_coherent opts.discipline sources.length

/-- A slew while nothing drains, then a step while that drain runs. -/
def slewThenStep : List (SyncEvent ℚ) :=
  [.poll 0 (.prompt 1 (some (.ahead 2 0 500000000 1000 1)) true),
    .poll 0 (.prompt 4 (some (.ahead 2 2 0 0 4)) true)]

/-- What of the default configuration the runs below are made with. -/
def plain : SyncOptions ℚ := ⟨false, .default, false, true⟩

instance (opts : SyncOptions R) (std : StdFloat R) (nominalTickUs : Int) (s : SyncLoop R)
    (ev : SyncEvent R) : Decidable (AppliesAtOnce opts std nominalTickUs s ev) :=
  inferInstanceAs (Decidable (_ ∧ _))

instance (opts : SyncOptions R) (std : StdFloat R) (nominalTickUs : Int) (s : SyncLoop R)
    (ev : SyncEvent R) : Decidable (BooksTrack opts std nominalTickUs s ev) :=
  inferInstanceAs (Decidable (∀ deed ∈ _, _ → _))

instance (opts : SyncOptions R) (std : StdFloat R) (nominalTickUs : Int) (s : SyncLoop R)
    (ev : SyncEvent R) : Decidable (StepsUndrained opts std nominalTickUs s ev) :=
  inferInstanceAs (Decidable (∀ deed ∈ _, _ → _))

/-- The slew, the end of its drain, and a step. -/
def slewRetireStep : List (SyncEvent ℚ) :=
  slewThenStep.take 1 ++
    [.head 20 20 true, .poll 0 (.prompt 21 (some (.ahead 2 2 0 0 21)) true)]

/-- Once the drain has ended the clock may be stepped. -/
theorem run_tracks_retired :
    Infra.Run.Along (fun s ev => (step plain ⟨id, id, fun _ _ => none⟩ 10000 s ev).1)
        (BooksTrack plain ⟨id, id, fun _ _ => none⟩ 10000) (start plain [.opened 0] 10000 0)
        slewRetireStep ∧
      (((start plain [.opened 0] 10000 0).run plain ⟨id, id, fun _ _ => none⟩ 10000
        (slewRetireStep.take 1)).step plain ⟨id, id, fun _ _ => none⟩ 10000
          (.head 20 20 true)).2 = some (.retired (.slew 0 0 0)) ∧
      (((start plain [.opened 0] 10000 0).run plain ⟨id, id, fun _ _ => none⟩ 10000
        (slewRetireStep.take 2)).step plain ⟨id, id, fun _ _ => none⟩ 10000
          (.poll 0 (.prompt 21 (some (.ahead 2 2 0 0 21)) true))).2.bind Deed.steps = some 2 := by
  refine ⟨?_, by decide +kernel, by decide +kernel⟩
  exact (run_tracks_iff plain ⟨id, id, fun _ _ => none⟩ 10000 [.opened 0] 0 slewRetireStep rfl
    (by decide +kernel)).mpr (by decide +kernel)

/-- The step leaves the drain installed that the books no longer have. -/
theorem not_run_tracks :
    Infra.Run.Along (fun s ev => (step plain ⟨id, id, fun _ _ => none⟩ 10000 s ev).1)
        (AppliesAtOnce plain ⟨id, id, fun _ _ => none⟩ 10000) (start plain [.opened 0] 10000 0)
        slewThenStep ∧
      ¬Infra.Run.Along (fun s ev => (step plain ⟨id, id, fun _ _ => none⟩ 10000 s ev).1)
        (BooksTrack plain ⟨id, id, fun _ _ => none⟩ 10000) (start plain [.opened 0] 10000 0)
        slewThenStep := by
  constructor <;> decide +kernel

/-! ## Holding the clock -/

/-- After a hold the books have the frequency the driver was told, and no drain for the time
after it. -/
def HoldsTrue (opts : SyncOptions R) (nominalTickUs : Int) (s : SyncLoop R) : Prop :=
  ∀ deed ∈ (s.holdIfNoMajority opts nominalTickUs none true).2,
    ∀ freqPpm drainOffset drainRatePpm,
      deed.command = .slew freqPpm drainOffset drainRatePpm →
    (s.holdIfNoMajority opts nominalTickUs none true).1.ctl.appliedPpm =
        freqPpm + copysign drainRatePpm drainOffset ∧
      ∀ heldS t, (∀ last ∈ s.ctl.drainBookedUntil, last ≤ heldS) → heldS ≤ t →
        (s.holdIfNoMajority opts nominalTickUs none true).1.ctl.drained t =
          (s.holdIfNoMajority opts nominalTickUs none true).1.ctl.drained heldS

/-- **A hold keeps the books true exactly when no drain is running.** -/
theorem holdIfNoMajority_holdsTrue_iff [IsStrictOrderedRing R] (opts : SyncOptions R)
    (nominalTickUs : Int) (s : SyncLoop R) (hdry : opts.dryRun = false) :
    s.HoldsTrue opts nominalTickUs ↔ s.ctl.drainPpm = 0 := by
  have hout : (s.holdIfNoMajority opts nominalTickUs none true).2 =
        some (.held (.slew s.ctl.freqCmdPpm 0 0)) ∧
      (s.holdIfNoMajority opts nominalTickUs none true).1.ctl = s.ctl := by
    unfold holdIfNoMajority
    rw [hdry]
    exact ⟨rfl, rfl⟩
  obtain ⟨hdeed, hctl⟩ := hout
  unfold HoldsTrue
  rw [hdeed, hctl]
  constructor
  · intro h
    have happlied := (h _ rfl s.ctl.freqCmdPpm 0 0 rfl).1
    rw [MultiController.appliedPpm, copysign_zero_zero, add_right_inj] at happlied
    exact happlied
  · rintro hzero _ ⟨⟩ _ _ _ ⟨⟩
    constructor
    · rw [MultiController.appliedPpm, hzero, copysign_zero_zero]
    · intro heldS t _ _
      rw [MultiController.drained_of_drainPpm_eq_zero hzero,
        MultiController.drained_of_drainPpm_eq_zero hzero]

/-- Two sources agree and a drain starts; then the steering one jumps away. -/
def agreeThenJump : List (SyncEvent ℚ) :=
  [.poll 0 (.prompt 1 (some (.ahead 2 0 500000000 0 1)) true),
    .poll 1 (.prompt 1 (some (.ahead 1 0 500000000 1000 1)) true),
    .poll 1 (.prompt 3 (some (.ahead 1 100 0 0 3)) true)]

/-- Once the drain has ended the clock may be held. -/
theorem holdIfNoMajority_holdsTrue_retired :
    ((start plain [.opened 0, .opened 0] 10000 0).run plain ⟨id, id, fun _ _ => none⟩ 10000
        (agreeThenJump.take 2)).ctl.drainPpm = 83333 ∧
      ((start plain [.opened 0, .opened 0] 10000 0).run plain ⟨id, id, fun _ _ => none⟩ 10000
        (agreeThenJump.take 2 ++ [.head 20 20 true])).HoldsTrue plain 10000 :=
  ⟨by decide +kernel, (holdIfNoMajority_holdsTrue_iff plain 10000
    ((start plain [.opened 0, .opened 0] 10000 0).run plain ⟨id, id, fun _ _ => none⟩ 10000
      (agreeThenJump.take 2 ++ [.head 20 20 true])) rfl).mpr (by decide +kernel)⟩

/-- The last poll holds the clock, and the books go on with a drain it stopped. -/
theorem not_holdsTrue :
    (((start plain [.opened 0, .opened 0] 10000 0).run plain ⟨id, id, fun _ _ => none⟩ 10000
        (agreeThenJump.take 2)).poll plain ⟨id, id, fun _ _ => none⟩ 10000 1
          (.prompt 3 (some (.ahead 1 100 0 0 3)) true)).2 = some (.held (.slew 0 0 0)) ∧
      (((start plain [.opened 0, .opened 0] 10000 0).run plain ⟨id, id, fun _ _ => none⟩ 10000
        agreeThenJump).ctl.appliedPpm ≠ 0) ∧
      ¬((start plain [.opened 0, .opened 0] 10000 0).run plain ⟨id, id, fun _ _ => none⟩ 10000
        (agreeThenJump.take 2)).HoldsTrue plain 10000 := by
  refine ⟨by decide +kernel, by decide +kernel, ?_⟩
  intro h
  have happlied := (h (.held (.slew 0 0 0)) (by decide +kernel) 0 0 0 rfl).1
  revert happlied
  decide +kernel

/-! ## Retiring a drain -/

/-- After a refused retirement at `monoS` the drain is on the books still, and goes on being
booked. The driver is not spoken of: this is for a clock that runs at the frequency plus the
drain, which the refusal leaves as it was. -/
def KeepsDrain (opts : SyncOptions R) (nominalTickUs : Int) (s : SyncLoop R) (monoS : R) : Prop :=
  (s.retire opts nominalTickUs monoS false).1.ctl.drainPpm = s.ctl.drainPpm ∧
    ∀ t, monoS ≤ t → (s.retire opts nominalTickUs monoS false).1.ctl.drained t =
      s.ctl.drainPpm * 1e-6 * (t - monoS)

/-- **A refused retirement takes the drain off the books**, whatever the state: the clock is left
as it was, the rate on the books is 0, and nothing of what it delivers later is booked. -/
theorem retire_refused [IsStrictOrderedRing R] (opts : SyncOptions R) (nominalTickUs : Int)
    (s : SyncLoop R) (monoS : R) (command : ClockCommand R) (hstop : opts.stopDrains = true)
    (hdry : opts.dryRun = false) (hretire : (s.ctl.pollDrain monoS).2 = some command) :
    (s.retire opts nominalTickUs monoS false).1.driver = s.driver ∧
      (∀ t, (s.retire opts nominalTickUs monoS false).1.ctl.drained t = 0) ∧
      ¬s.KeepsDrain opts nominalTickUs monoS := by
  rcases s.ctl.pollDrain_cases monoS with h | ⟨hne, ⟨last, -, hctl⟩, hcommand⟩
  · rw [h] at hretire
    exact absurd hretire.symm (Option.some_ne_none _)
  · have hpoll : s.ctl.pollDrain monoS =
        (s.ctl.retireDrain last monoS, some (.slew s.ctl.freqCmdPpm 0 0)) :=
      Prod.ext hctl hcommand
    have hout : (s.retire opts nominalTickUs monoS false).1.driver = s.driver ∧
        (s.retire opts nominalTickUs monoS false).1.ctl = s.ctl.retireDrain last monoS := by
      unfold retire
      rw [hstop, hpoll, hdry]
      exact ⟨rfl, rfl⟩
    obtain ⟨hdriver, hctl⟩ := hout
    have hzero : (s.retire opts nominalTickUs monoS false).1.ctl.drainPpm = 0 := by
      rw [hctl]
      exact MultiController.retireDrain_drainPpm last
    refine ⟨hdriver, ?_, ?_⟩
    · exact MultiController.drained_of_drainPpm_eq_zero hzero
    · rintro ⟨hkept, -⟩
      rw [hzero] at hkept
      exact hne hkept.symm

/-- A drain of half a second, whose end the driver refuses. -/
theorem retire_refused_late :
    ¬((start plain [.opened 0] 10000 0).run plain ⟨id, id, fun _ _ => none⟩ 10000
      (slewThenStep.take 1)).KeepsDrain plain 10000 8 :=
  (retire_refused plain 10000 ((start plain [.opened 0] 10000 0).run plain
    ⟨id, id, fun _ _ => none⟩ 10000 (slewThenStep.take 1)) 8 (.slew 0 0 0) rfl rfl
    (by decide +kernel)).2.2

/-- The drain the clock still runs at is gone from the books. -/
theorem not_keepsDrain :
    ((start plain [.opened 0] 10000 0).run plain ⟨id, id, fun _ _ => none⟩ 10000
        (slewThenStep.take 1)).driver.installedPpm 10000 = (83333 : ℚ) ∧
      (((start plain [.opened 0] 10000 0).run plain ⟨id, id, fun _ _ => none⟩ 10000
        (slewThenStep.take 1)).retire plain 10000 8 false).1.ctl.appliedPpm = 0 ∧
      ¬((start plain [.opened 0] 10000 0).run plain ⟨id, id, fun _ _ => none⟩ 10000
        (slewThenStep.take 1)).KeepsDrain plain 10000 8 := by
  refine ⟨by decide +kernel, by decide +kernel, ?_⟩
  rintro ⟨hkept, -⟩
  revert hkept
  decide +kernel

end SyncLoop

end RustyTime
