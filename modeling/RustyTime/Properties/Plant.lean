import Mathlib.Algebra.Order.Ring.Rat
import RustyTime.Properties.ClientLedger
import RustyTime.Properties.Discipline
import RustyTime.Properties.Regression
import RustyTime.Spec.Plant

/-!
# With perfect measurements the loop is exact

The stored samples always lie on one line, the error of the clock as its present frequency
tells it. So the regression reads the error and the frequency exactly, one use of a measured
frequency cancels the clock's own, and the drain after it ends at zero.

* `Tuned` — the invariant: the line, and where a running drain will end
* `advance_follows`, `measure_spec`, `sample_tuned`, `pollDrain_tuned` — one event
* `exact_loop` — every run
-/

namespace RustyTime.Plant

open RustyTime.SampleRegister (reexpress Collinear Ready Tracks)
open RustyTime.MultiController (stepOf)

set_option linter.unusedSectionVars false

variable {R : Type} [Field R] [LinearOrder R] [IsStrictOrderedRing R]
  {config : DisciplineConfig R} {F delay : R} {p : Plant R} {reg : SampleRegister R}
  {history : List (Sample R)}

/-- What the result assumes of a configuration. -/
structure Suits (config : DisciplineConfig R) (F : R) : Prop where
  gain : config.freqIntegralGain = 0
  density : config.slopeDensityWeighting = false
  limit : config.maxChangeS = none
  age : (newRegister config).offsetAgeHalflifeS = ⊤
  freq : |F| ≤ config.maxFreqPpm

/-! ## The line -/

/-- The slope of the stored samples: the clock's frequency error, as a sample sees it. -/
def slope (F : R) (p : Plant R) : R := -(F + p.controller.freqPpm) * 1e-6

/-- The part of the error the samples have been told of. -/
def bookedError (p : Plant R) : R := p.error - p.controller.inner.drained p.now

/-- The one register holds samples on the line of the clock's error. -/
structure Follows (config : DisciplineConfig R) (F delay : R) (p : Plant R)
    (reg : SampleRegister R) (history : List (Sample R)) : Prop where
  registers : p.controller.inner.registers = [reg]
  ready : Ready delay registerCapacity reg history
  line : Collinear (-p.bookedError) (slope F p) p.now delay history
  recent : ∀ s ∈ history, ∃ last, p.lastSample = some last ∧ s.t ≤ last
  cfg : p.controller.inner.discipline.cfg = config
  unplanned : p.controller.inner.drainBookedUntil = none →
    history = [] ∧ p.controller.inner.drainPpm = 0 ∧ p.locked = false
  planned : ∀ b, p.controller.inner.drainBookedUntil = some b →
    b ≤ p.now ∧ p.controller.freqPpm = p.controller.inner.discipline.freqPpm
  locked : p.locked = true → p.controller.freqPpm = -F ∧ 3 ≤ history.length

/-- Where a running drain ends, the error is zero. -/
def Lands (p : Plant R) : Prop :=
  ∀ completesAt, p.controller.drainCompletesAt = some completesAt →
    p.error + p.controller.inner.drainPpm * 1e-6 * (completesAt - p.now) = 0

/-- **The loop is in tune.** -/
def Tuned (config : DisciplineConfig R) (F delay : R) (p : Plant R) : Prop :=
  ∃ reg history, Follows config F delay p reg history ∧ (p.locked = true → Lands p)

theorem start_follows (h : Suits config F) (preload now error : R) :
    Follows config F delay (start config preload now error) (newRegister config) [] where
  registers := rfl
  ready :=
    { tracks := MultiController.newRegister_tracks config
      density := h.density
      age := h.age
      uniform := fun hfor => nomatch hfor
      fresh := fun _ => rfl }
  line := ⟨fun _ hs => (nomatch hs), fun _ hs => (nomatch hs), List.Pairwise.nil⟩
  recent _ hs := nomatch hs
  cfg := rfl
  unplanned _ := ⟨rfl, rfl, rfl⟩
  planned _ hb := nomatch hb
  locked hl := nomatch hl

/-! ## Time passing -/

/-- The error the samples know of moves with the frequency alone. -/
theorem advance_bookedError (h : Follows config F delay p reg history) {t : R} (ht : p.now ≤ t) :
    (p.advance F t).bookedError
      = p.bookedError + (F + p.controller.freqPpm) * 1e-6 * (t - p.now) := by
  have happlied : p.controller.appliedPpm
      = p.controller.freqPpm + p.controller.inner.drainPpm := rfl
  show p.error + (F + p.controller.appliedPpm) * 1e-6 * (t - p.now)
      - p.controller.inner.drained t = p.error - p.controller.inner.drained p.now + _
  rw [happlied]
  cases hb : p.controller.inner.drainBookedUntil with
  | none =>
    have hzero : ∀ x, p.controller.inner.drained x = 0 := fun x => by
      simp only [MultiController.drained, hb]
    rw [hzero, hzero, (h.unplanned hb).2.1]
    ring
  | some b =>
    have hle := (h.planned b hb).1
    rw [MultiController.drained_eq hb (hle.trans ht), MultiController.drained_eq hb hle]
    ring

theorem advance_follows (h : Follows config F delay p reg history) {t : R} (ht : p.now ≤ t) :
    Follows config F delay (p.advance F t) reg history where
  registers := h.registers
  ready := h.ready
  line := by
    have hline := h.line.rebase t
    have hvalue : -p.bookedError + slope F p * (t - p.now) = -(p.advance F t).bookedError := by
      rw [advance_bookedError h ht, slope]
      ring
    rw [hvalue] at hline
    exact hline
  recent := h.recent
  cfg := h.cfg
  unplanned := h.unplanned
  planned b hb := ⟨(h.planned b hb).1.trans ht, (h.planned b hb).2⟩
  locked := h.locked

theorem advance_lands (hl : p.controller.freqPpm = -F) (h : Lands p) (t : R) :
    Lands (p.advance F t) := by
  intro completesAt hc
  have happlied : p.controller.appliedPpm
      = p.controller.freqPpm + p.controller.inner.drainPpm := rfl
  show p.error + (F + p.controller.appliedPpm) * 1e-6 * (t - p.now)
    + p.controller.inner.drainPpm * 1e-6 * (completesAt - t) = 0
  rw [← h completesAt hc, happlied, hl]
  ring

theorem advance_tuned (h : Tuned config F delay p) {t : R} (ht : p.now ≤ t) :
    Tuned config F delay (p.advance F t) := by
  obtain ⟨reg, history, hf, hl⟩ := h
  exact ⟨reg, history, advance_follows hf ht,
    fun hlocked => advance_lands (hf.locked hlocked).1 (hl hlocked) t⟩

/-! ## A measurement -/

/-- What an `observe` of the present leaves: `c` with its one register, and an estimate. -/
structure Measured (F delay : R) (p : Plant R) (c : MultiController R) (est : Estimate R)
    (reg : SampleRegister R) (history : List (Sample R)) : Prop where
  registers : c.registers = [reg]
  ready : Ready delay registerCapacity reg history
  line : Collinear (-p.error) (slope F p) p.now delay history
  recent : ∀ s ∈ history, s.t ≤ p.now
  discipline : c.discipline = p.controller.inner.discipline
  freqCmdPpm : c.freqCmdPpm = p.controller.freqPpm
  reads : 3 ≤ history.length → est.offsetS = -p.error ∧
    ∀ f, est.freqPpm = some f → f = -(F + p.controller.freqPpm)
  rough : history.length < 3 → est.freqPpm = none

/-- Booking the drain re-expresses the one register, and takes the line through the error
itself. -/
theorem Follows.booked (h : Follows config F delay p reg history)
    (hspaced : ∀ last, p.lastSample = some last → last + 1 ≤ p.now) :
    let drained := p.controller.inner.drained p.now
    (p.controller.inner.settleDrain p.now).registers = [reg.slewSamples p.now 0 drained] ∧
      Collinear (-p.error) (slope F p) p.now delay (history.map (reexpress p.now 0 drained)) ∧
      ∀ s ∈ history.map (reexpress p.now 0 drained), s.t + 1 ≤ p.now := by
  intro drained
  refine ⟨?_, ?_, ?_⟩
  · rw [MultiController.settleDrain_registers, h.registers, List.map_singleton]
  · have hre := h.line.reexpress 0 drained
    have hvalue : -p.bookedError - drained = -p.error := by
      rw [bookedError]
      ring
    rwa [hvalue, zero_mul, sub_zero] at hre
  · intro s hs
    obtain ⟨s₀, hs₀, rfl⟩ := List.mem_map.mp hs
    obtain ⟨last, hlast, hle⟩ := h.recent s₀ hs₀
    show s₀.t + 1 ≤ p.now
    have := hspaced last hlast
    linarith

/-- **A measurement of the present.** The history gains a point of the line, and an estimate
from the regression is the line's. -/
theorem measure_spec (std : StdFloat R) (h : Follows config F delay p reg history)
    (hspaced : ∀ last, p.lastSample = some last → last + 1 ≤ p.now) (dispersion : R) :
    let s := p.measure delay dispersion
    let observed := p.controller.inner.observe std 0 p.now s
    ∃ reg' history', Measured F delay p observed.1 observed.2 reg' history' ∧
      history'.length = history.length + 1 ∧
      ∀ e, p.controller.regressionAt std p.now s = some e →
        observed.2.offsetS = e.offset ∧ observed.2.freqPpm = e.freqPpm ∧ 3 ≤ history'.length := by
  intro s observed
  let reg₁ := reg.slewSamples p.now 0 (p.controller.inner.drained p.now)
  have hready₁ := h.ready.slew p.now 0 (p.controller.inner.drained p.now)
  let booked := history.map (reexpress p.now 0 (p.controller.inner.drained p.now))
  obtain ⟨hregs₁, hline, hrecent⟩ := h.booked hspaced
  have hline' : Collinear (-p.error) (slope F p) p.now delay (booked ++ [s]) :=
    hline.concat rfl rfl rfl hrecent
  obtain ⟨hready', hexact, hnone⟩ := hready₁.exchange std hline'
  have hlen : booked.length = history.length := List.length_map _
  let fit := (reg₁.push s).regress std p.now
  have hobserved : observed =
      ({ p.controller.inner.settleDrain p.now with registers := [fit.1] },
        MultiController.estimateFrom fit.1 fit.2) := by
    show MultiController.estimate _ _ _ _ = _
    unfold MultiController.estimate
    simp only [hregs₁, List.modify_cons, List.getElem?_cons_zero, List.set_cons_zero, if_true,
      List.modify_nil]
    rfl
  have hat : p.controller.regressionAt std p.now s = fit.2 := by
    unfold SyncController.regressionAt
    rw [hregs₁]
    rfl
  refine ⟨fit.1, booked ++ [s], ?_, by simp [hlen], ?_⟩
  · rw [hobserved]
    refine ⟨rfl, hready', hline', ?_, MultiController.settleDrain_discipline,
      MultiController.settleDrain_freqCmdPpm, ?_, ?_⟩
    · intro s' hs'
      rcases List.mem_append.mp hs' with hold | hnew
      · have := hrecent s' hold
        linarith
      · rw [List.mem_singleton.mp hnew]
        exact le_rfl
    · intro hthree
      rw [List.length_append, List.length_singleton] at hthree
      obtain ⟨est, hest, hoffset, hslope⟩ := hexact hthree
      show (MultiController.estimateFrom fit.1 fit.2).offsetS = _ ∧ _
      have hfit : fit.2 = some est := hest
      rw [hfit]
      refine ⟨hoffset, fun f hf => ?_⟩
      rw [hslope f hf, slope]
      ring
    · intro hlt
      rw [List.length_append, List.length_singleton] at hlt
      have hfit : fit.2 = none := hnone hlt
      show (MultiController.estimateFrom fit.1 fit.2).freqPpm = none
      rw [hfit]
      unfold MultiController.estimateFrom
      dsimp only
      split <;> rfl
  · intro e he
    rw [hat] at he
    rw [hobserved]
    show (MultiController.estimateFrom fit.1 fit.2).offsetS = _ ∧
      (MultiController.estimateFrom fit.1 fit.2).freqPpm = _ ∧ _
    rw [he]
    refine ⟨rfl, rfl, ?_⟩
    rw [List.length_append, List.length_singleton]
    by_contra hlt
    exact Option.some_ne_none e (he.symm.trans (hnone (Nat.lt_of_not_le hlt)))

/-! ## A plan -/

section Plan

variable {c : MultiController R} (est : Estimate R)

/-- What a plan does to the commanded frequency. -/
theorem steer_freqPpm (hs : Suits config F) (hcfg : c.discipline.cfg = config) (monoNowS : R)
    (leapPending : Bool) :
    let steered := c.steer est monoNowS leapPending
    steered.1.discipline.cfg = config ∧
      (if steered.2.usesFrequency c.discipline
        then ∃ fm, est.freqPpm = some fm ∧ steered.1.freqCmdPpm
          = clamp (-config.maxFreqPpm) config.maxFreqPpm (c.discipline.freqPpm + fm)
        else steered.1.freqCmdPpm = c.discipline.freqPpm) := by
  intro steered
  let out := c.discipline.onEstimateWithLeap est.offsetS est.freqPpm est.sdS leapPending
  show out.1.cfg = config ∧ (if _ then ∃ fm, _ ∧ out.1.freqPpm = _ else out.1.freqPpm = _)
  rcases c.discipline.onEstimateWithLeap_cases est.offsetS est.freqPpm est.sdS leapPending with
    hstep | hrefuse | hslew
  · refine ⟨hstep.cfg.trans hcfg, ?_⟩
    rw [steered.2.usesFrequency_step hstep.command]
    exact hstep.freqPpm
  · exact absurd hs.limit (hcfg ▸ hrefuse.limited)
  · have hfreq : out.1.freqPpm = _ := hslew.freqPpm
    refine ⟨hslew.cfg.trans hcfg, ?_⟩
    rw [steered.2.usesFrequency_slew hslew.command hslew.verdict, hfreq,
      Discipline.prepareSlew_freqPpm (by rw [← hs.gain, ← hcfg])]
    show (if est.freqPpm.isSome && _ then _ else _)
    unfold Discipline.accumulateFreq
    cases hf : est.freqPpm with
    | none => simp
    | some fm =>
      by_cases hhaul : freqTrustSlewShare < c.discipline.lastDrainShare
      · simp [hhaul]
      · simp [hhaul, hcfg]

/-- The two commands there are, when nothing is refused. -/
theorem steer_command (hs : Suits config F) (hcfg : c.discipline.cfg = config) (monoNowS : R)
    (leapPending : Bool) :
    let steered := c.steer est monoNowS leapPending
    steered.2.plan.command = .step est.offsetS ∨
      ∃ (ready : Discipline R) (noise : R), ready.cfg = config ∧ 0 < noise ∧
        steered.2.plan.command = .slew steered.1.freqCmdPpm est.offsetS
          (ready.drainRatePpm est.offsetS noise) := by
  intro steered
  rcases c.discipline.onEstimateWithLeap_cases est.offsetS est.freqPpm est.sdS leapPending with
    hstep | hrefuse | hslew
  · exact .inl hstep.command
  · exact absurd hs.limit (hcfg ▸ hrefuse.limited)
  · refine .inr ⟨_, _, ?_, lt_max_of_lt_right (by norm_num), hslew.command⟩
    rw [Discipline.prepareSlew_cfg]
    exact hcfg

end Plan

/-- A drain of `|offset|` at any rate takes away the offset. -/
theorem drain_lands {rate offset : R} (hr : copysign rate offset ≠ 0) :
    copysign rate offset * 1e-6
      * (|offset| / (|copysign rate offset| * 1e-6)) = offset := by
  have hrate : rate ≠ 0 := by
    rintro rfl
    exact hr (by unfold copysign; split <;> simp)
  have hpos : |rate| ≠ 0 := abs_ne_zero.mpr hrate
  unfold copysign
  split
  · next hneg =>
    rw [abs_neg, abs_abs, abs_of_neg hneg]
    field_simp
  · next hpos' =>
    rw [abs_abs, abs_of_nonneg (not_lt.mp hpos')]
    field_simp

/-- A plan's step and what its drain delivers until it completes come to the estimated offset. -/
theorem steer_delivers {c : MultiController R} (est : Estimate R) (hs : Suits config F)
    (hcfg : c.discipline.cfg = config) {monoNowS : R} {leapPending : Bool} {completesAt : R}
    (hc : (c.steer est monoNowS leapPending).1.drainCompletesAt = some completesAt) :
    stepOf (c.steer est monoNowS leapPending).2.plan.command +
      (c.steer est monoNowS leapPending).1.drainPpm * 1e-6 * (completesAt - monoNowS) =
        est.offsetS := by
  have hcommand := steer_command est hs hcfg monoNowS leapPending
  have hdrain : ((c.steer est monoNowS leapPending).1.drainPpm,
      (c.steer est monoNowS leapPending).1.drainRemainingS) =
        MultiController.drainOf (c.steer est monoNowS leapPending).2.plan.command := rfl
  have hlast : (c.steer est monoNowS leapPending).1.lastPlanMonoS = some monoNowS := rfl
  generalize c.steer est monoNowS leapPending = steered at hc hcommand hdrain hlast ⊢
  unfold MultiController.drainCompletesAt at hc
  rw [hlast] at hc
  dsimp only at hc
  rcases hcommand with hstep | ⟨ready, noise, -, -, hslew⟩
  · rw [hstep] at hdrain
    rw [if_pos (.inl (congrArg Prod.fst hdrain))] at hc
    cases hc
  · rw [hslew] at hdrain ⊢
    have hppm : steered.1.drainPpm = copysign (ready.drainRatePpm est.offsetS noise) est.offsetS :=
      congrArg Prod.fst hdrain
    have hremaining : steered.1.drainRemainingS = |est.offsetS| := congrArg Prod.snd hdrain
    split at hc
    · cases hc
    · next hruns =>
      rw [not_or] at hruns
      rw [← Option.some.inj hc, add_sub_cancel_left, hremaining, hppm]
      rw [hppm] at hruns
      rw [drain_lands hruns.1]
      exact zero_add est.offsetS

/-- A frequency once measured and used is the one that stops the clock's drift: the estimate it
came from was exact. -/
theorem steer_locked (hs : Suits config F) (hf : Follows config F delay p reg history)
    {c : MultiController R} {est : Estimate R} {reg' : SampleRegister R}
    {history' : List (Sample R)} (hm : Measured F delay p c est reg' history')
    (hlen : history'.length = history.length + 1) (leapPending : Bool)
    (hl : (p.locked || (c.steer est p.now leapPending).2.usesFrequency
      p.controller.inner.discipline) = true) :
    (c.steer est p.now leapPending).1.freqCmdPpm = -F ∧ 3 ≤ history'.length := by
  have hcfg : c.discipline.cfg = config := by rw [hm.discipline, hf.cfg]
  obtain ⟨-, hfreq⟩ := steer_freqPpm est hs hcfg p.now leapPending
  rw [hm.discipline] at hfreq
  have hplanned : 3 ≤ history'.length →
      p.controller.freqPpm = p.controller.inner.discipline.freqPpm := by
    intro hthree
    cases hb : p.controller.inner.drainBookedUntil with
    | none =>
      rw [(hf.unplanned hb).1, List.length_nil] at hlen
      omega
    | some b => exact (hf.planned b hb).2
  by_cases huse : (c.steer est p.now leapPending).2.usesFrequency
      p.controller.inner.discipline = true
  · rw [if_pos huse] at hfreq
    obtain ⟨fm, hfm, hnew⟩ := hfreq
    have hthree : 3 ≤ history'.length := by
      by_contra hlt
      exact Option.some_ne_none fm (hfm.symm.trans (hm.rough (by omega)))
    refine ⟨?_, hthree⟩
    rw [hnew, (hm.reads hthree).2 fm hfm, ← hplanned hthree]
    have hsum : p.controller.freqPpm + -(F + p.controller.freqPpm) = -F := by ring
    rw [hsum, clamp_of_abs_le ((abs_neg F).trans_le hs.freq)]
  · rw [if_neg huse] at hfreq
    have hold : p.locked = true := by
      rw [Bool.or_eq_true] at hl
      exact hl.resolve_right huse
    obtain ⟨hold', hthree⟩ := hf.locked hold
    refine ⟨?_, by omega⟩
    rw [hfreq, ← hplanned (by omega), hold']

/-- The state of the plant after a sample. -/
theorem act_sample (std : StdFloat R) (t dispersion : R) (leapPending : Bool) :
    let observed := p.controller.inner.observe std 0 p.now (p.measure delay dispersion)
    let steered := observed.1.steer observed.2 p.now leapPending
    p.act std delay (.sample t dispersion leapPending) =
      { now := p.now
        error := p.error + stepOf steered.2.plan.command
        controller := ⟨steered.1⟩
        lastSample := some p.now
        locked := p.locked || steered.2.usesFrequency p.controller.inner.discipline } := rfl

/-- **A sample keeps the loop in tune.** -/
theorem sample_tuned (std : StdFloat R) (hs : Suits config F) (h : Tuned config F delay p)
    (hspaced : ∀ last, p.lastSample = some last → last + 1 ≤ p.now) (t dispersion : R)
    (leapPending : Bool) :
    Tuned config F delay (p.act std delay (.sample t dispersion leapPending)) := by
  obtain ⟨reg, history, hf, -⟩ := h
  obtain ⟨reg', history', hm, hlen, -⟩ := measure_spec std hf hspaced dispersion
  rw [act_sample]
  generalize hobs : p.controller.inner.observe std 0 p.now (p.measure delay dispersion) = observed
    at hm ⊢
  generalize hst : observed.1.steer observed.2 p.now leapPending = steered
  have hcfg : observed.1.discipline.cfg = config := by rw [hm.discipline, hf.cfg]
  have hcfg' : steered.1.discipline.cfg = config := by
    rw [← hst]
    exact (steer_freqPpm observed.2 hs hcfg p.now leapPending).1
  have hbooked : steered.1.drainBookedUntil = some p.now := by rw [← hst]; rfl
  have hsame : steered.1.freqCmdPpm = steered.1.discipline.freqPpm := by rw [← hst]; rfl
  have hregs : steered.1.registers = [reg'.slewSamples p.now
      (steered.1.freqCmdPpm - observed.1.freqCmdPpm) (stepOf steered.2.plan.command)] := by
    rw [← hst]
    show observed.1.registers.map _ = _
    rw [hm.registers]
    rfl
  have hlocked : (p.locked || steered.2.usesFrequency p.controller.inner.discipline) = true →
      steered.1.freqCmdPpm = -F ∧ 3 ≤ history'.length := by
    rw [← hst]
    exact steer_locked hs hf hm hlen leapPending
  refine ⟨_, history'.map (reexpress p.now (steered.1.freqCmdPpm - observed.1.freqCmdPpm)
    (stepOf steered.2.plan.command)), ⟨hregs, hm.ready.slew _ _ _, ?_, ?_, hcfg',
      ?_, ?_, ?_⟩, ?_⟩
  · -- the line moves with the clock
    have hline := hm.line.reexpress (steered.1.freqCmdPpm - observed.1.freqCmdPpm)
      (stepOf steered.2.plan.command)
    rw [hm.freqCmdPpm] at hline ⊢
    have hzero : steered.1.drained p.now = 0 := by
      rw [MultiController.drained_eq hbooked le_rfl, sub_self, mul_zero]
    have hvalue : -p.error - stepOf steered.2.plan.command
        = -(p.error + stepOf steered.2.plan.command - steered.1.drained p.now) := by
      rw [hzero]
      ring
    have hslope : slope F p - (steered.1.freqCmdPpm - p.controller.freqPpm) * 1e-6
        = -(F + steered.1.freqCmdPpm) * 1e-6 := by
      rw [slope]
      ring
    rw [hvalue, hslope] at hline
    exact hline
  · intro s hs'
    obtain ⟨s', hs'', rfl⟩ := List.mem_map.mp hs'
    exact ⟨p.now, rfl, hm.recent s' hs''⟩
  · intro hnone
    exact absurd (hbooked.symm.trans hnone) (Option.some_ne_none _)
  · intro b hb
    cases hbooked.symm.trans hb
    exact ⟨le_rfl, hsame⟩
  · intro hl
    obtain ⟨hnew, hthree⟩ := hlocked hl
    exact ⟨hnew, by rwa [List.length_map]⟩
  · -- the new drain is sized for the error it was planned at
    intro hl completesAt hc
    obtain ⟨-, hthree⟩ := hlocked hl
    have hoffset := (hm.reads hthree).1
    change steered.1.drainCompletesAt = some completesAt at hc
    show p.error + stepOf steered.2.plan.command
      + steered.1.drainPpm * 1e-6 * (completesAt - p.now) = 0
    rw [← hst] at hc ⊢
    rw [add_assoc, steer_delivers observed.2 hs hcfg hc, hoffset, add_neg_cancel]

/-! ## The end of a drain -/

/-- **`poll_drain` keeps the loop in tune.** -/
theorem pollDrain_tuned (std : StdFloat R) (h : Tuned config F delay p) (t : R) :
    Tuned config F delay (p.act std delay (.pollDrain t)) := by
  obtain ⟨reg, history, hf, hl⟩ := h
  show Tuned config F delay { p with controller := ⟨(p.controller.inner.pollDrain p.now).1⟩ }
  unfold MultiController.pollDrain
  split
  · exact ⟨reg, history, hf, hl⟩
  · split
    · exact ⟨reg, history, hf, hl⟩
    · split
      · exact ⟨reg, history, hf, hl⟩
      · next completesAt _ _ last hb =>
        obtain ⟨hle, hfreq⟩ := hf.planned last hb
        let c := p.controller.inner
        let reg' := reg.slewSamples p.now 0 (c.drained p.now)
        have hready : Ready delay registerCapacity reg' _ := hf.ready.slew p.now 0 (c.drained p.now)
        have hregs : (c.retireDrain last p.now).registers = [reg'] := by
          rw [MultiController.retireDrain_registers hb, hf.registers, List.map_singleton]
        have hfreq' : (c.retireDrain last p.now).freqCmdPpm = c.freqCmdPpm :=
          MultiController.retireDrain_freqCmdPpm last
        have hdisc : (c.retireDrain last p.now).discipline = c.discipline :=
          MultiController.retireDrain_discipline last
        refine ⟨reg', _, ⟨hregs, hready, ?_, ?_, ?_,
          fun hnone => absurd hnone (Option.some_ne_none _), ?_, ?_⟩, ?_⟩
        · have hline := hf.line.reexpress 0 (c.drained p.now)
          have hzero : (c.retireDrain last p.now).drained p.now = 0 := by
            rw [MultiController.drained_eq (show _ = some p.now from rfl) le_rfl, sub_self,
              mul_zero]
          have hvalue : -p.bookedError - c.drained p.now
              = -(p.error - (c.retireDrain last p.now).drained p.now) := by
            rw [hzero, bookedError]
            ring
          have hslope : slope F p - 0 * 1e-6
              = -(F + (c.retireDrain last p.now).freqCmdPpm) * 1e-6 := by
            rw [hfreq', slope]
            show -(F + c.freqCmdPpm) * 1e-6 - _ = _
            ring
          rw [hvalue, hslope] at hline
          exact hline
        · intro s hs'
          obtain ⟨s', hs'', rfl⟩ := List.mem_map.mp hs'
          exact hf.recent s' hs''
        · show (c.retireDrain last p.now).discipline.cfg = config
          rw [hdisc]
          exact hf.cfg
        · intro b hb'
          cases hb'
          refine ⟨le_rfl, ?_⟩
          show (c.retireDrain last p.now).freqCmdPpm = (c.retireDrain last p.now).discipline.freqPpm
          rw [hfreq', hdisc]
          exact hfreq
        · intro hlocked
          obtain ⟨hF, hthree⟩ := hf.locked hlocked
          refine ⟨?_, by rwa [List.length_map]⟩
          show (c.retireDrain last p.now).freqCmdPpm = -F
          rw [hfreq']
          exact hF
        · -- no drain is left
          intro _ completesAt' hc
          change MultiController.drainCompletesAt (c.retireDrain last p.now) = _ at hc
          unfold MultiController.drainCompletesAt at hc
          simp [MultiController.retireDrain] at hc

/-- What the configuration needs for a correction of nothing to be no correction. -/
structure Settles (config : DisciplineConfig R) : Prop where
  ceiling : 0 ≤ config.maxSlewPpm
  corrTime : 0 < config.corrTimeS ∨ config.corrTimeMaxS ≠ 0

/-- The clock is right and stays right. -/
structure Rests (p : Plant R) : Prop where
  locked : p.locked = true
  error : p.error = 0
  drain : p.controller.inner.drainPpm = 0 ∨ p.controller.drainCompletesAt = some p.now

theorem peekPollInterval_pos (d : Discipline R) : 0 < d.peekPollInterval := by
  have htwo : (0 : R) < 2.0 := by norm_num
  unfold Discipline.peekPollInterval
  split
  · exact htwo
  · exact zpow_pos htwo _

theorem corrTime_ne_zero {d : Discipline R} (hs : Settles config) (hcfg : d.cfg = config) :
    d.corrTime ≠ 0 := by
  unfold Discipline.corrTime
  rw [hcfg]
  dsimp only
  split
  · next hpos => exact hpos.ne'
  · next hnot =>
    have hratio : 0 < (if 0 < config.corrTimeRatio then config.corrTimeRatio
        else corrTimeRatioDefault) * d.peekPollInterval := by
      refine mul_pos ?_ (peekPollInterval_pos d)
      split
      · assumption
      · exact zero_lt_one
    rcases min_choice ((if 0 < config.corrTimeRatio then config.corrTimeRatio
        else corrTimeRatioDefault) * d.peekPollInterval) config.corrTimeMaxS with hmin | hmin
    · rw [hmin]
      exact hratio.ne'
    · rw [hmin]
      exact hs.corrTime.resolve_left hnot

/-- No offset, no drain. -/
theorem drainRatePpm_zero {d : Discipline R} {noise : R} (hs : Settles config)
    (hcfg : d.cfg = config) (hnoise : 0 < noise) : d.drainRatePpm 0 noise = 0 := by
  have hquiet : ¬ (d.updates ≤ acquireUpdates ∧ acquireNoiseMultiple * noise < |(0 : R)|) := by
    rw [abs_zero]
    refine fun hc => not_le.mpr hc.2 (mul_nonneg ?_ hnoise.le)
    rw [acquireNoiseMultiple]
    norm_num
  have hwanted : d.wantedRatePpm 0 noise = ((0 : R) : WithTop R) := by
    unfold Discipline.wantedRatePpm
    rw [if_neg hquiet, if_neg (corrTime_ne_zero hs hcfg), abs_zero, zero_div, zero_mul]
  unfold Discipline.drainRatePpm
  rw [hwanted]
  show min 0 d.cfg.maxSlewPpm = 0
  rw [hcfg]
  exact min_eq_left hs.ceiling

/-- A drain that runs to completion leaves no error. -/
theorem advance_rests (h : Tuned config F delay p) (hl : p.locked = true) {t : R}
    (hc : p.controller.drainCompletesAt = some t) : Rests (p.advance F t) := by
  obtain ⟨reg, history, hf, hlands⟩ := h
  refine ⟨hl, ?_, .inr hc⟩
  have hland := advance_lands (hf.locked hl).1 (hlands hl) t t hc
  have hnow : (p.advance F t).now = t := rfl
  rwa [hnow, sub_self, mul_zero, add_zero] at hland

/-- A clock at rest stays at rest as time passes. -/
theorem Rests.advance (hr : Rests p) (h : Tuned config F delay p) {t : R} (ht : p.now ≤ t)
    (hdue : ∀ completesAt, p.controller.drainCompletesAt = some completesAt → t ≤ completesAt) :
    Rests (p.advance F t) := by
  obtain ⟨reg, history, hf, -⟩ := h
  rcases hr.drain with hzero | hc
  · refine ⟨hr.locked, ?_, .inl hzero⟩
    have happlied : p.controller.appliedPpm
        = p.controller.freqPpm + p.controller.inner.drainPpm := rfl
    show p.error + (F + p.controller.appliedPpm) * 1e-6 * (t - p.now) = 0
    rw [happlied, (hf.locked hr.locked).1, hr.error, hzero]
    ring
  · -- a drain that has just ended runs no further
    have hnow : t = p.now := le_antisymm (hdue p.now hc) ht
    refine ⟨hr.locked, ?_, .inr (by rw [hnow]; exact hc)⟩
    show p.error + (F + p.controller.appliedPpm) * 1e-6 * (t - p.now) = 0
    rw [hr.error, hnow]
    ring

/-- A clock at rest stays at rest whatever the controller does. -/
theorem Rests.act (std : StdFloat R) (hs : Suits config F) (hset : Settles config) (hr : Rests p)
    (h : Tuned config F delay p) (ev : Event R)
    (hspaced : ∀ t dispersion leap, ev = .sample t dispersion leap →
      ∀ last, p.lastSample = some last → last + 1 ≤ p.now) :
    Rests (p.act std delay ev) := by
  cases ev with
  | wait t => exact hr
  | pollDrain t =>
    refine ⟨hr.locked, hr.error, ?_⟩
    show (p.controller.inner.pollDrain p.now).1.drainPpm = 0 ∨
      MultiController.drainCompletesAt (p.controller.inner.pollDrain p.now).1 = some p.now
    obtain ⟨reg, history, hf, -⟩ := h
    unfold MultiController.pollDrain
    rcases hr.drain with hzero | hc
    · have hnone : p.controller.inner.drainCompletesAt = none := by
        unfold MultiController.drainCompletesAt
        split
        · rfl
        · rw [if_pos (.inl hzero)]
      rw [hnone]
      exact .inl hzero
    · have hc' : p.controller.inner.drainCompletesAt = some p.now := hc
      rw [hc']
      simp only [lt_irrefl, if_false]
      cases hb : p.controller.inner.drainBookedUntil with
      | none =>
        have := (hf.unplanned hb).2.2
        rw [hr.locked] at this
        cases this
      | some last => exact .inl rfl
  | sample t dispersion leapPending =>
    obtain ⟨reg, history, hf, -⟩ := h
    obtain ⟨reg', history', hm, hlen, -⟩ :=
      measure_spec std hf (hspaced t dispersion leapPending rfl) dispersion
    rw [act_sample]
    generalize hobs : p.controller.inner.observe std 0 p.now (p.measure delay dispersion)
      = observed at hm ⊢
    generalize hst : observed.1.steer observed.2 p.now leapPending = steered
    have hcfg : observed.1.discipline.cfg = config := by rw [hm.discipline, hf.cfg]
    have hthree : 3 ≤ history'.length := by
      have := (hf.locked hr.locked).2
      omega
    have hoffset : observed.2.offsetS = 0 := by rw [(hm.reads hthree).1, hr.error, neg_zero]
    have hdrain : steered.1.drainPpm
        = (MultiController.drainOf steered.2.plan.command).1 := by rw [← hst]; rfl
    have hcommand := steer_command observed.2 hs hcfg p.now leapPending
    rw [hst, hoffset] at hcommand
    refine ⟨by simp [hr.locked], ?_, .inl ?_⟩
    · show p.error + stepOf steered.2.plan.command = 0
      rcases hcommand with hstep | ⟨ready, noise, -, -, hslew⟩
      · rw [hstep, hr.error]
        exact add_zero 0
      · rw [hslew, hr.error]
        exact add_zero 0
    · show steered.1.drainPpm = 0
      rcases hcommand with hstep | ⟨ready, noise, hready, hnoise, hslew⟩
      · rw [hdrain, hstep]
        rfl
      · rw [hdrain, hslew]
        show copysign (ready.drainRatePpm 0 noise) 0 = 0
        rw [drainRatePpm_zero hset hready hnoise]
        simp [copysign]

/-! ## Every run -/

theorem step_tuned (std : StdFloat R) (hs : Suits config F) (h : Tuned config F delay p)
    {ev : Event R} (hallows : p.Allows ev) : Tuned config F delay (p.step std F delay ev) := by
  obtain ⟨hnow, -, hspaced⟩ := hallows
  have hadv := advance_tuned h hnow
  cases ev with
  | wait t => exact hadv
  | sample t dispersion leapPending =>
    exact sample_tuned std hs hadv hspaced t dispersion leapPending
  | pollDrain t => exact pollDrain_tuned std hadv t

theorem run_tuned (std : StdFloat R) (hs : Suits config F) {evs : List (Event R)}
    (h : Tuned config F delay p) (hproper : Proper std F delay p evs) :
    Tuned config F delay (p.run std F delay evs) := by
  induction evs generalizing p with
  | nil => exact h
  | cons ev evs ih => exact ih (step_tuned std hs h hproper.1) hproper.2

/-- What an allowed sample keeps to. -/
theorem Allows.spaced {ev : Event R} (h : p.Allows ev) :
    ∀ t dispersion leap, ev = .sample t dispersion leap →
      ∀ last, (p.advance F ev.t).lastSample = some last → last + 1 ≤ (p.advance F ev.t).now := by
  rintro t dispersion leap rfl
  exact h.2.2

theorem run_rests (std : StdFloat R) (hs : Suits config F) (hset : Settles config)
    {evs : List (Event R)} (h : Tuned config F delay p) (hr : Rests p)
    (hproper : Proper std F delay p evs) : Rests (p.run std F delay evs) := by
  induction evs generalizing p with
  | nil => exact hr
  | cons ev evs ih =>
    obtain ⟨hallows, hproper⟩ := hproper
    have hr' := hr.advance h hallows.1 hallows.2.1
    exact ih (step_tuned std hs h hallows)
      (hr'.act std hs hset (advance_tuned h hallows.1) ev hallows.spaced) hproper

theorem Proper.append {std : StdFloat R} {before rest : List (Event R)}
    (h : Proper std F delay p (before ++ rest)) :
    Proper std F delay p before ∧ Proper std F delay (p.run std F delay before) rest := by
  induction before generalizing p with
  | nil => exact ⟨trivial, h⟩
  | cons ev before ih => exact ⟨⟨h.1, (ih h.2).1⟩, (ih h.2).2⟩

/--
**With perfect measurements the loop is exact.** In every proper run from any start:

* an estimate that comes from the regression has exactly the error as its offset and exactly
  the frequency error as its frequency, if it has one;
* from the first plan that uses a measured frequency on, the commanded frequency cancels the
  clock's;
* where a nonnegative slew ceiling and a correction time other than 0 are configured, the error
  is zero as soon as a drain of such a plan or a later one has run to completion, and for ever.
-/
theorem exact_loop (std : StdFloat R) (config : DisciplineConfig R) (F delay preload t₀ e₀ : R)
    (hs : Suits config F) (evs : List (Event R))
    (hproper : Proper std F delay (start config preload t₀ e₀) evs) :
    let plant := run std F delay (start config preload t₀ e₀)
    let p := plant evs
    (∀ t dispersion leap, p.Allows (.sample t dispersion leap) →
      let q := p.advance F t
      let sample := q.measure delay dispersion
      ∀ e, q.controller.regressionAt std t sample = some e →
        let decided := (q.controller.onSampleWithLeap std t sample leap).2
        decided.estimateOffsetS = -q.error ∧
          ∀ f, decided.estimateFreqPpm = some f → f = -(F + q.controller.freqPpm)) ∧
    (p.locked = true → p.controller.freqPpm = -F) ∧
    (Settles config → ∀ before ev rest, evs = before ++ ev :: rest →
      (plant before).locked = true → (plant before).controller.drainCompletesAt = some ev.t →
        p.error = 0) := by
  intro plant p
  have hstart : Tuned config F delay (start config preload t₀ e₀) :=
    ⟨_, _, start_follows hs preload t₀ e₀, fun hl => nomatch hl⟩
  have htuned : Tuned config F delay p := run_tuned std hs hstart hproper
  refine ⟨?_, ?_, ?_⟩
  · intro t dispersion leap hallows q sample e he decided
    obtain ⟨reg, history, hf, -⟩ := advance_tuned htuned hallows.1
    obtain ⟨reg', history', hm, -, hregression⟩ := measure_spec std hf hallows.2.2 dispersion
    obtain ⟨-, -, hthree⟩ := hregression e he
    exact hm.reads hthree
  · intro hl
    obtain ⟨reg, history, hf, -⟩ := htuned
    exact (hf.locked hl).1
  · -- the drain ends, and from there on the clock is at rest
    intro hset before ev rest hevs hl hc
    subst hevs
    obtain ⟨hbefore, hallows, hrest⟩ := hproper.append
    have htuned' : Tuned config F delay (plant before) := run_tuned std hs hstart hbefore
    have hr := (advance_rests htuned' hl hc).act std hs hset (advance_tuned htuned' hallows.1) ev
      hallows.spaced
    have hrun : p = ((plant before).step std F delay ev).run std F delay rest := by
      show run _ _ _ _ (before ++ ev :: rest) = _
      rw [run, List.foldl_append]
      rfl
    rw [hrun]
    exact (run_rests std hs hset (step_tuned std hs htuned' hallows) hr hrest).error

/-- A clock 16 ppm fast, a millisecond off: four samples, a drain to its end, one more sample. -/
theorem exact_loop_sixteen :
    let config : DisciplineConfig ℚ := { DisciplineConfig.default with iburst := false }
    let evs : List (Event ℚ) := [.sample 0 0 false, .sample 4 0 false, .sample 8 0 false,
      .sample 12 0 false, .pollDrain 76, .sample 80 0 false, .wait 81]
    let p := run ⟨id, id, fun _ _ => none⟩ 16 (1 / 1000000000) (start config 0 0 (1 / 1000)) evs
    p.controller.freqPpm = -16 ∧ p.error = 0 := by
  intro config evs p
  have hs : Suits config 16 :=
    ⟨rfl, rfl, rfl, by decide +kernel, by decide +kernel⟩
  obtain ⟨-, hlocked, hrests⟩ := exact_loop ⟨id, id, fun _ _ => none⟩ config 16 (1 / 1000000000) 0 0
    (1 / 1000) hs evs (by decide +kernel)
  exact ⟨hlocked (by decide +kernel), hrests ⟨by decide +kernel, .inr (by decide +kernel)⟩
    [.sample 0 0 false, .sample 4 0 false, .sample 8 0 false, .sample 12 0 false] (.pollDrain 76)
    [.sample 80 0 false, .wait 81] rfl (by decide +kernel) (by decide +kernel)⟩

/-- Once a drain planned with or after the use of a measured frequency has run to completion,
the clock of a configuration is right for ever. -/
def StaysRight (std : StdFloat R) (config : DisciplineConfig R) : Prop :=
  ∀ (F delay e₀ : R) (evs before : List (Event R)) (ev : Event R) (rest : List (Event R)),
    Suits config F → 0 < delay → Proper std F delay (start config 0 0 e₀) evs →
    evs = before ++ ev :: rest → (run std F delay (start config 0 0 e₀) before).locked = true →
    (run std F delay (start config 0 0 e₀) before).controller.drainCompletesAt = some ev.t →
    (run std F delay (start config 0 0 e₀) evs).error = 0

/-- Over a correction time of zero, or under a negative slew ceiling, an offset of nothing is
still drained at the ceiling, with no budget to end it. -/
theorem not_staysRight :
    ¬ StaysRight ⟨id, id, fun _ _ => none⟩
        ({ DisciplineConfig.default with iburst := false, corrTimeMaxS := 0 } :
          DisciplineConfig ℚ) ∧
      ¬ StaysRight ⟨id, id, fun _ _ => none⟩
        ({ DisciplineConfig.default with iburst := false, maxSlewPpm := -5 } :
          DisciplineConfig ℚ) := by
  let acquire : List (Event ℚ) :=
    [.sample 0 0 false, .sample 4 0 false, .sample 8 0 false, .sample 12 0 false]
  constructor
  · intro h
    have hzero := h 0 (1 / 1000000000) (1 / 1000)
      (acquire ++ [.pollDrain 76, .sample 80 0 false, .wait 81]) acquire (.pollDrain 76)
      [.sample 80 0 false, .wait 81] ⟨rfl, rfl, rfl, by decide +kernel, by decide +kernel⟩
      (by decide +kernel) (by decide +kernel) rfl (by decide +kernel) (by decide +kernel)
    revert hzero
    decide +kernel
  · intro h
    have hzero := h 0 (1 / 1000000000) (1 / 1000)
      (acquire ++ [.pollDrain 200, .sample 204 0 false, .wait 205]) acquire (.pollDrain 200)
      [.sample 204 0 false, .wait 205] ⟨rfl, rfl, rfl, by decide +kernel, by decide +kernel⟩
      (by decide +kernel) (by decide +kernel) rfl (by decide +kernel) (by decide +kernel)
    revert hzero
    decide +kernel

end RustyTime.Plant
