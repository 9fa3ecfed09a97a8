import Mathlib.Algebra.Order.Ring.Abs
import Mathlib.Tactic.Linarith
import RustyTime.Core.Discipline

/-!
# What one estimate can do to the discipline

* `onEstimateWithLeap_cases` — the three outcomes: a step, a refusal, a slew
* `prepareSlew_freqPpm` — where the frequency of a slew comes from
* `prepareSlew_keeps` — what a slew leaves alone
-/

namespace RustyTime

section Clamp

variable {R : Type} [Field R] [LinearOrder R] [IsStrictOrderedRing R] {m x : R}

theorem clamp_of_abs_le (h : |x| ≤ m) : clamp (-m) m x = x := by
  obtain ⟨hlo, hhi⟩ := abs_le.mp h
  unfold clamp
  rw [if_neg (not_lt.mpr hlo), if_neg (not_lt.mpr hhi)]

theorem abs_clamp_le (hm : 0 ≤ m) (x : R) : |clamp (-m) m x| ≤ m := by
  rw [abs_le]
  unfold clamp
  split
  · constructor <;> linarith
  · next hlo =>
    split
    · constructor <;> linarith
    · next hhi => exact ⟨not_lt.mp hlo, not_lt.mp hhi⟩

end Clamp

namespace Discipline

set_option linter.unusedSectionVars false

variable {R : Type} [Field R] [LinearOrder R] {d : Discipline R} {offset noise : R}
  {freqPpmMeas : Option R}

/-! ## The poll slot of a plan -/

theorem takePollInterval_eq (d : Discipline R) :
    d.takePollInterval =
      { d with
        iburstLeft := d.iburstLeft - 1
        burstUsed := d.burstUsed + min d.iburstLeft 1 } := by
  unfold takePollInterval
  split
  · next h => simp [Nat.min_eq_right h]
  · next h =>
    have hleft : d.iburstLeft - 1 = d.iburstLeft := by omega
    have hnone : min d.iburstLeft 1 = 0 := by omega
    rw [hleft, hnone, Nat.add_zero]

@[simp] theorem takePollInterval_cfg : d.takePollInterval.cfg = d.cfg := by
  simp [takePollInterval_eq]

@[simp] theorem takePollInterval_freqPpm : d.takePollInterval.freqPpm = d.freqPpm := by
  simp [takePollInterval_eq]

@[simp] theorem takePollInterval_updates : d.takePollInterval.updates = d.updates := by
  simp [takePollInterval_eq]

@[simp] theorem takePollInterval_poll : d.takePollInterval.poll = d.poll := by
  simp [takePollInterval_eq]

@[simp] theorem takePollInterval_lastDrainShare :
    d.takePollInterval.lastDrainShare = d.lastDrainShare := by
  simp [takePollInterval_eq]

@[simp] theorem takePollInterval_changeRefusals :
    d.takePollInterval.changeRefusals = d.changeRefusals := by
  simp [takePollInterval_eq]

/-! ## What each stage of a slew writes -/

theorem exists_accumulateFreq (d : Discipline R) (freqPpmMeas : Option R) :
    ∃ freq, d.accumulateFreq freqPpmMeas = { d with freqPpm := freq } := by
  unfold accumulateFreq
  split
  · split
    · exact ⟨d.freqPpm, rfl⟩
    · exact ⟨_, rfl⟩
  · exact ⟨d.freqPpm, rfl⟩

theorem exists_averageOffset (d : Discipline R) (offset : R) :
    ∃ ewma seeded,
      d.averageOffset offset = { d with offsetEwma := ewma, ewmaSeeded := seeded } := by
  unfold averageOffset
  split
  · exact ⟨_, d.ewmaSeeded, rfl⟩
  · exact ⟨_, _, rfl⟩

theorem exists_integralTrim (d : Discipline R) (noise : R) :
    ∃ freq, d.integralTrim noise = { d with freqPpm := freq } := by
  unfold integralTrim
  split
  · exact ⟨_, rfl⟩
  · exact ⟨d.freqPpm, rfl⟩

/-- A quiet offset lengthens the streak by one, or is rewarded for it; any other ends it. -/
theorem exists_adaptPoll (d : Discipline R) (offset noise : R) :
    ∃ poll streak, streak ≤ d.stableStreak + 1 ∧
      d.adaptPoll offset noise = { d with poll := poll, stableStreak := streak } := by
  unfold adaptPoll
  dsimp only
  split
  · split
    · exact ⟨_, 0, Nat.zero_le _, rfl⟩
    · exact ⟨d.poll, d.stableStreak + 1, le_rfl, rfl⟩
  · split
    · exact ⟨_, 0, Nat.zero_le _, rfl⟩
    · exact ⟨d.poll, 0, Nat.zero_le _, rfl⟩

theorem exists_extendBurst (d : Discipline R) (offset noise : R) :
    ∃ left, d.extendBurst offset noise = { d with iburstLeft := left } := by
  unfold extendBurst
  split
  · exact ⟨_, rfl⟩
  · exact ⟨d.iburstLeft, rfl⟩

theorem accumulateFreq_cfg : (d.accumulateFreq freqPpmMeas).cfg = d.cfg := by
  obtain ⟨freq, h⟩ := exists_accumulateFreq d freqPpmMeas
  rw [h]

theorem averageOffset_cfg : (d.averageOffset offset).cfg = d.cfg := by
  obtain ⟨ewma, seeded, h⟩ := exists_averageOffset d offset
  rw [h]

theorem averageOffset_freqPpm : (d.averageOffset offset).freqPpm = d.freqPpm := by
  obtain ⟨ewma, seeded, h⟩ := exists_averageOffset d offset
  rw [h]

theorem integralTrim_of_gain_eq_zero (h : d.cfg.freqIntegralGain = 0) :
    d.integralTrim noise = d := by
  unfold integralTrim
  exact if_neg fun hc => hc.1 h

theorem adaptPoll_freqPpm : (d.adaptPoll offset noise).freqPpm = d.freqPpm := by
  obtain ⟨poll, streak, -, h⟩ := exists_adaptPoll d offset noise
  rw [h]

theorem extendBurst_freqPpm : (d.extendBurst offset noise).freqPpm = d.freqPpm := by
  obtain ⟨left, h⟩ := exists_extendBurst d offset noise
  rw [h]

/-- Without the integral trim the frequency is the accumulated one. -/
theorem prepareSlew_freqPpm (h : d.cfg.freqIntegralGain = 0) :
    (d.prepareSlew offset freqPpmMeas noise).freqPpm = (d.accumulateFreq freqPpmMeas).freqPpm := by
  rw [prepareSlew, extendBurst_freqPpm, adaptPoll_freqPpm, integralTrim_of_gain_eq_zero,
    averageOffset_freqPpm]
  rw [averageOffset_cfg, accumulateFreq_cfg]
  exact h

/-- What no stage of a slew touches, and the streak, which one of them lengthens at most. -/
structure Keeps (d d' : Discipline R) : Prop where
  cfg : d'.cfg = d.cfg
  updates : d'.updates = d.updates
  lastDrainShare : d'.lastDrainShare = d.lastDrainShare
  burstUsed : d'.burstUsed = d.burstUsed
  changeRefusals : d'.changeRefusals = d.changeRefusals
  stableStreak : d'.stableStreak ≤ d.stableStreak + 1

theorem prepareSlew_keeps : Keeps d (d.prepareSlew offset freqPpmMeas noise) := by
  unfold prepareSlew
  obtain ⟨freq, haccumulate⟩ := exists_accumulateFreq d freqPpmMeas
  rw [haccumulate]
  obtain ⟨ewma, seeded, haverage⟩ := exists_averageOffset { d with freqPpm := freq } offset
  rw [haverage]
  obtain ⟨trimmed, htrim⟩ := exists_integralTrim
    { d with freqPpm := freq, offsetEwma := ewma, ewmaSeeded := seeded } noise
  rw [htrim]
  obtain ⟨poll, streak, hstreak, hadapt⟩ := exists_adaptPoll
    { d with freqPpm := trimmed, offsetEwma := ewma, ewmaSeeded := seeded } offset noise
  rw [hadapt]
  obtain ⟨left, hextend⟩ := exists_extendBurst
    { d with
      freqPpm := trimmed, offsetEwma := ewma, ewmaSeeded := seeded
      poll := poll, stableStreak := streak } offset noise
  rw [hextend]
  exact ⟨rfl, rfl, rfl, rfl, rfl, hstreak⟩

theorem prepareSlew_cfg : (d.prepareSlew offset freqPpmMeas noise).cfg = d.cfg :=
  prepareSlew_keeps.cfg

/-! ## The outcomes -/

/-- A correction by stepping: the frequency stays. -/
structure Steps (d : Discipline R) (offset : R) (out : Discipline R × Plan R) : Prop where
  command : out.2.command = .step offset
  verdict : out.2.verdict = .accepted
  freqPpm : out.1.freqPpm = d.freqPpm
  cfg : out.1.cfg = d.cfg

/-- A correction turned down: the frequency is held, nothing drains. -/
structure Refuses (d : Discipline R) (out : Discipline R × Plan R) : Prop where
  command : out.2.command = .slew d.freqPpm 0 0
  verdict : out.2.verdict ≠ .accepted
  freqPpm : out.1.freqPpm = d.freqPpm
  cfg : out.1.cfg = d.cfg
  limited : d.cfg.maxChangeS ≠ none

/-- A correction by slewing, `noise` the floored dispersion of the estimate. -/
structure Slews (d : Discipline R) (offset : R) (freqPpmMeas : Option R) (noise : R)
    (out : Discipline R × Plan R) : Prop where
  command : out.2.command = .slew out.1.freqPpm offset
    (((({ d with updates := d.updates + 1, changeRefusals := 0 } : Discipline R).prepareSlew offset
      freqPpmMeas noise)).drainRatePpm offset noise)
  verdict : out.2.verdict = .accepted
  freqPpm : out.1.freqPpm =
    (({ d with updates := d.updates + 1, changeRefusals := 0 } : Discipline R).prepareSlew offset
      freqPpmMeas noise).freqPpm
  cfg : out.1.cfg = d.cfg

theorem emit_steps {d' : Discipline R} (hf : d'.freqPpm = d.freqPpm) (hc : d'.cfg = d.cfg) :
    Steps d offset (d'.emit (.step offset) true .accepted) where
  command := rfl
  verdict := rfl
  freqPpm := by rw [emit, takePollInterval_freqPpm, hf]
  cfg := by rw [emit, takePollInterval_cfg, hc]

/-- **One estimate steps, is refused, or slews.** -/
theorem onEstimateWithLeap_cases (d : Discipline R) (offset : R) (freqPpmMeas : Option R)
    (offsetSd : R) (leapPending : Bool) :
    Steps d offset (d.onEstimateWithLeap offset freqPpmMeas offsetSd leapPending) ∨
      Refuses d (d.onEstimateWithLeap offset freqPpmMeas offsetSd leapPending) ∨
      Slews d offset freqPpmMeas (max offsetSd 1e-7)
        (d.onEstimateWithLeap offset freqPpmMeas offsetSd leapPending) := by
  unfold onEstimateWithLeap
  dsimp only
  split
  · -- an announced leap second is stepped
    exact .inl (emit_steps rfl rfl)
  · split
    · next hlimit =>
      refine .inr (.inl ⟨rfl, ?_, ?_, ?_, ?_⟩)
      · show (if _ then _ else _) ≠ _
        split <;> exact fun h => nomatch h
      · rw [refuse, emit, takePollInterval_freqPpm]
      · rw [refuse, emit, takePollInterval_cfg]
      · intro hnone
        simp [exceedsMaxChange, hnone] at hlimit
    · split
      · exact .inl (emit_steps rfl rfl)
      · refine .inr (.inr ⟨?_, rfl, ?_, ?_⟩)
        · simp only [planSlew, emit, takePollInterval_freqPpm]
        · simp only [planSlew, emit, takePollInterval_freqPpm]
        · simp only [planSlew, emit, takePollInterval_cfg, prepareSlew_cfg]

end Discipline

end RustyTime
