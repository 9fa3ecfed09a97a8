import Mathlib.Tactic.Positivity
import RustyTime.Infra.Run
import RustyTime.Properties.Guard

/-!
# The bounds of the discipline's state

`InBounds` holds of a new discipline, and one lemma carries it through an estimate: whatever is
decided, a plan is emitted from a state in bounds.

* `feed_emits` — one estimate emits a plan from a state in bounds
* `discipline_in_bounds` — poll, burst, frequency and drain rates stay in bounds over every run
-/

namespace RustyTime

set_option linter.unusedSectionVars false

variable {R : Type} [Field R] [LinearOrder R] [IsStrictOrderedRing R]

namespace Discipline

variable {d : Discipline R} {f : Feed R} {offset noise : R} {freqPpmMeas : Option R}
  {cfg : DisciplineConfig R}

/-- The configuration makes sense. -/
structure Sane (cfg : DisciplineConfig R) : Prop where
  poll : cfg.minPoll ≤ cfg.maxPoll
  slew : 0 ≤ cfg.maxSlewPpm
  freq : 0 ≤ cfg.maxFreqPpm
  corrTime : 0 < cfg.corrTimeMaxS

/-- The state is in the bounds of its configuration. -/
structure InBounds (cfg : DisciplineConfig R) (d : Discipline R) : Prop where
  config : d.cfg = cfg
  minPoll : cfg.minPoll ≤ d.poll
  maxPoll : d.poll ≤ cfg.maxPoll
  burst : d.burstUsed + d.iburstLeft ≤ maxAcquireBurst
  freq : |d.freqPpm| ≤ cfg.maxFreqPpm

/-! ## The stages -/

theorem new_inBounds (h : Sane cfg) : InBounds cfg (Discipline.new cfg) where
  config := rfl
  minPoll := le_rfl
  maxPoll := h.poll
  burst := by
    unfold Discipline.new
    dsimp only
    split <;> decide
  freq := by simpa [Discipline.new] using h.freq

namespace InBounds

variable (h : InBounds cfg d)
include h

/-- The counters that have no bound are free. -/
theorem withCounters (updates stableStreak changeRefusals : Nat) :
    InBounds cfg { d with
      updates := updates, stableStreak := stableStreak, changeRefusals := changeRefusals } :=
  ⟨h.config, h.minPoll, h.maxPoll, h.burst, h.freq⟩

theorem withFreq {freq : R} (hfreq : |freq| ≤ cfg.maxFreqPpm) :
    InBounds cfg { d with freqPpm := freq } :=
  ⟨h.config, h.minPoll, h.maxPoll, h.burst, hfreq⟩

theorem accumulateFreq (hsane : Sane cfg) : InBounds cfg (d.accumulateFreq freqPpmMeas) := by
  unfold Discipline.accumulateFreq
  split
  · split
    · exact h
    · refine h.withFreq ?_
      rw [h.config]
      exact abs_clamp_le hsane.freq _
  · exact h

theorem averageOffset : InBounds cfg (d.averageOffset offset) := by
  unfold Discipline.averageOffset
  split
  · exact ⟨h.config, h.minPoll, h.maxPoll, h.burst, h.freq⟩
  · exact ⟨h.config, h.minPoll, h.maxPoll, h.burst, h.freq⟩

theorem integralTrim (hsane : Sane cfg) : InBounds cfg (d.integralTrim noise) := by
  unfold Discipline.integralTrim
  split
  · refine h.withFreq ?_
    rw [h.config]
    exact abs_clamp_le hsane.freq _
  · exact h

/-- The poll moves by one, and only inside its bounds. -/
theorem adaptPoll : InBounds cfg (d.adaptPoll offset noise) := by
  have hmin := h.minPoll
  have hmax := h.maxPoll
  unfold Discipline.adaptPoll
  split
  · dsimp only
    split
    · next hup =>
      rw [h.config] at hup
      exact ⟨h.config, by simp; omega, by simp; omega, h.burst, h.freq⟩
    · exact ⟨h.config, hmin, hmax, h.burst, h.freq⟩
  · dsimp only
    split
    · next hdown =>
      rw [h.config] at hdown
      exact ⟨h.config, by simp; omega, by simp; omega, h.burst, h.freq⟩
    · exact ⟨h.config, hmin, hmax, h.burst, h.freq⟩

/-- The burst is extended by one poll, and only while some of its budget is left. -/
theorem extendBurst : InBounds cfg (d.extendBurst offset noise) := by
  unfold Discipline.extendBurst
  split
  · next hextend =>
    refine ⟨h.config, h.minPoll, h.maxPoll, ?_, h.freq⟩
    simp
    omega
  · exact h

theorem prepareSlew (hsane : Sane cfg) (offset : R) (freqPpmMeas : Option R) (noise : R) :
    InBounds cfg (d.prepareSlew offset freqPpmMeas noise) :=
  ((((h.accumulateFreq hsane).averageOffset).integralTrim hsane).adaptPoll).extendBurst

theorem takePollInterval : InBounds cfg d.takePollInterval := by
  have hburst := h.burst
  rw [takePollInterval_eq]
  refine ⟨h.config, h.minPoll, h.maxPoll, ?_, h.freq⟩
  dsimp only
  omega

end InBounds

/-! ## The drain rate -/

theorem exp2i_pos (k : Int) : (0 : R) < exp2i k := by
  have htwo : (0 : R) < 2.0 := by norm_num
  exact zpow_pos htwo k

theorem peekPollInterval_pos (d : Discipline R) : 0 < d.peekPollInterval := by
  unfold peekPollInterval
  split
  · norm_num [iburstSpacingS]
  · exact exp2i_pos _

theorem acquireShare_nonneg : 0 ≤ acquireShare offset noise := by
  unfold acquireShare
  split
  · exact zero_le_one
  · norm_num [acquireSlewShare]

theorem corrTime_pos (h : 0 < d.cfg.corrTimeMaxS) : 0 < d.corrTime := by
  have hratio : 0 < if 0 < d.cfg.corrTimeRatio then d.cfg.corrTimeRatio
      else corrTimeRatioDefault := by
    split
    · assumption
    · norm_num [corrTimeRatioDefault]
  unfold corrTime
  dsimp only
  split
  · assumption
  · exact lt_min (mul_pos hratio (peekPollInterval_pos d)) h

/-- **A drain rate is between nothing and the slew ceiling.** -/
theorem drainRatePpm_mem (hslew : 0 ≤ d.cfg.maxSlewPpm) (hcorr : 0 < d.cfg.corrTimeMaxS)
    (offset noise : R) :
    0 ≤ d.drainRatePpm offset noise ∧ d.drainRatePpm offset noise ≤ d.cfg.maxSlewPpm := by
  have hpeek := peekPollInterval_pos d
  have hcorrTime := corrTime_pos hcorr
  unfold drainRatePpm wantedRatePpm
  split
  · exact ⟨hslew, le_rfl⟩
  · next wanted hwanted =>
    have hnonneg : 0 ≤ wanted := by
      split at hwanted
      · cases hwanted
        have hacquire : (0 : R) < acquireCorrRatio := by norm_num [acquireCorrRatio]
        refine le_min ?_ (mul_nonneg hslew acquireShare_nonneg)
        positivity
      · rw [if_neg hcorrTime.ne'] at hwanted
        cases hwanted
        positivity
    exact ⟨le_min hnonneg hslew, min_le_right _ _⟩

/-! ## One estimate -/

/-- A command drains within the ceiling. -/
def DrainsWithin (cfg : DisciplineConfig R) (command : ClockCommand R) : Prop :=
  ∀ freq drain rate, command = .slew freq drain rate → 0 ≤ rate ∧ rate ≤ cfg.maxSlewPpm

/-- **One estimate emits a plan from a state in bounds**, with its burst slots unspent. -/
theorem feed_emits (hsane : Sane cfg) (h : InBounds cfg d) (f : Feed R) :
    ∃ d' command reset verdict, d.feed f = Discipline.emit d' command reset verdict ∧
      InBounds cfg d' ∧ d'.burstUsed = d.burstUsed ∧ DrainsWithin cfg command := by
  have hout := feed_outcome d f
  generalize d.feed f = out at hout ⊢
  cases hout with
  | leap =>
    refine ⟨_, _, _, _, rfl, h.withCounters _ _ _, rfl, ?_⟩
    intro freq drain rate hcommand
    exact nomatch hcommand
  | refuse =>
    refine ⟨_, _, _, _, rfl, h.withCounters _ _ _, rfl, ?_⟩
    intro freq drain rate hcommand
    cases hcommand
    exact ⟨le_rfl, hsane.slew⟩
  | step =>
    refine ⟨_, _, _, _, rfl, h.withCounters _ _ _, rfl, ?_⟩
    intro freq drain rate hcommand
    exact nomatch hcommand
  | slew =>
    have hprepared := (h.withCounters (d.updates + 1) d.stableStreak 0).prepareSlew hsane f.offset
      f.freqPpmMeas (max f.offsetSd 1e-7)
    refine ⟨_, _, _, _, rfl, ?_, prepareSlew_keeps.burstUsed, ?_⟩
    · exact ⟨hprepared.config, hprepared.minPoll, hprepared.maxPoll, hprepared.burst,
        hprepared.freq⟩
    · intro freq drain rate hcommand
      cases hcommand
      have hrate := drainRatePpm_mem (hprepared.config ▸ hsane.slew)
        (hprepared.config ▸ hsane.corrTime) f.offset (max f.offsetSd 1e-7)
      rw [hprepared.config] at hrate
      exact hrate

/-- A plan takes a burst slot of 2 s, or waits for the poll interval. -/
theorem emit_slot (d : Discipline R) (command : ClockCommand R) (reset : Bool)
    (verdict : ChangeVerdict R) :
    let out := d.emit command reset verdict
    out.2.nextPollS = 2 ∧ out.1.burstUsed = d.burstUsed + 1 ∨
      out.2.nextPollS = exp2i out.1.poll ∧ out.1.burstUsed = d.burstUsed := by
  intro out
  by_cases hleft : 0 < d.iburstLeft
  · refine .inl ⟨?_, ?_⟩
    · show d.peekPollInterval = 2
      rw [peekPollInterval, if_pos hleft]
      norm_num [iburstSpacingS]
    · show d.takePollInterval.burstUsed = _
      rw [takePollInterval_eq, Nat.min_eq_right hleft]
  · refine .inr ⟨?_, ?_⟩
    · show d.peekPollInterval = exp2i d.takePollInterval.poll
      rw [peekPollInterval, if_neg hleft, takePollInterval_poll]
    · show d.takePollInterval.burstUsed = _
      rw [takePollInterval, if_neg hleft]

end Discipline

/-! ## Runs -/

namespace DisciplineRun

open Discipline

variable {cfg : DisciplineConfig R} {r : DisciplineRun R}

/-- An outcome whose plan does not wait for the poll interval of its state. -/
def hurried (out : Discipline R × Plan R) : Bool := decide (out.2.nextPollS ≠ exp2i out.1.poll)

/-- What a run keeps: the state in bounds, every drain within the ceiling, and no more hurried
plans than burst slots used. -/
structure Bounded (cfg : DisciplineConfig R) (r : DisciplineRun R) : Prop where
  state : InBounds cfg r.state
  drains : ∀ out ∈ r.log, DrainsWithin cfg out.2.command
  burst : r.log.countP hurried ≤ r.state.burstUsed
  spaced : ∀ out ∈ r.log, hurried out = true → out.2.nextPollS = 2

theorem Bounded.step (hsane : Sane cfg) (h : Bounded cfg r) (f : Feed R) :
    Bounded cfg (r.step (.estimate f)) := by
  obtain ⟨d', command, reset, verdict, hfeed, hbounds, hused, hdrains⟩ :=
    feed_emits hsane h.state f
  have hslot := emit_slot d' command reset verdict
  have hcount := h.burst
  show Bounded cfg ⟨(r.state.feed f).1, r.state.feed f :: r.log⟩
  rw [hfeed]
  refine ⟨hbounds.takePollInterval, ?_, ?_, ?_⟩
  · exact List.forall_mem_cons.mpr ⟨hdrains, h.drains⟩
  · show _ ≤ (d'.emit command reset verdict).1.burstUsed
    rw [List.countP_cons]
    rcases hslot with ⟨-, hmore⟩ | ⟨hwaits, hsame⟩
    · split <;> omega
    · have hno : DisciplineRun.hurried (d'.emit command reset verdict) = false := by
        simp [DisciplineRun.hurried, hwaits]
      simp only [hno, Bool.false_eq_true, if_false]
      omega
  · refine List.forall_mem_cons.mpr ⟨?_, h.spaced⟩
    intro hhurried
    rcases hslot with ⟨htwo, -⟩ | ⟨hwaits, -⟩
    · exact htwo
    · simp [DisciplineRun.hurried, hwaits] at hhurried

/-- A retry leaves a run as it is. -/
theorem run_filter_isEstimate (cfg : DisciplineConfig R) (calls : List (DisciplineCall R)) :
    run cfg (calls.filter DisciplineCall.isEstimate) = run cfg calls := by
  have hfold : ∀ r : DisciplineRun R,
      (calls.filter DisciplineCall.isEstimate).foldl DisciplineRun.step r =
        calls.foldl DisciplineRun.step r := by
    induction calls with
    | nil => exact fun _ => rfl
    | cons call calls ih =>
      intro r
      cases call with
      | estimate f => exact ih _
      | retry => exact ih _
  exact hfold _

/-- **The discipline's state stays in bounds over every run**, at most 16 plans of which are
given the burst's 2 s and not the poll interval. -/
theorem discipline_in_bounds (cfg : DisciplineConfig R) (hpoll : cfg.minPoll ≤ cfg.maxPoll)
    (hslew : 0 ≤ cfg.maxSlewPpm) (hfreq : 0 ≤ cfg.maxFreqPpm) (hcorr : 0 < cfg.corrTimeMaxS)
    (calls : List (DisciplineCall R)) :
    let r := run cfg calls
    (cfg.minPoll ≤ r.state.poll ∧ r.state.poll ≤ cfg.maxPoll) ∧
      r.state.burstUsed + r.state.iburstLeft ≤ 16 ∧
      (r.log.countP fun out => decide (out.2.nextPollS ≠ exp2i out.1.poll)) ≤ 16 ∧
      (∀ out ∈ r.log, out.2.nextPollS ≠ exp2i out.1.poll → out.2.nextPollS = 2) ∧
      |r.state.freqPpm| ≤ cfg.maxFreqPpm ∧
      (∀ out ∈ r.log, ∀ freq drain rate, out.2.command = .slew freq drain rate →
        0 ≤ rate ∧ rate ≤ cfg.maxSlewPpm) ∧
      run cfg (calls.filter DisciplineCall.isEstimate) = r := by
  intro r
  have hsane : Sane cfg := ⟨hpoll, hslew, hfreq, hcorr⟩
  have h : Bounded cfg r :=
    run_induction ⟨new_inBounds hsane, by simp [start], by simp [start], by simp [start]⟩
      (fun _ f h => h.step hsane f) calls
  refine ⟨⟨h.state.minPoll, h.state.maxPoll⟩, h.state.burst, ?_, ?_, h.state.freq, h.drains,
    run_filter_isEstimate cfg calls⟩
  · exact h.burst.trans ((Nat.le_add_right _ _).trans h.state.burst)
  · intro out hout hne
    exact h.spaced out hout (decide_eq_true hne)

/-- Half a second, a retry, and two measured milliseconds, the second with a leap second pending. -/
def halfThenMillis : List (DisciplineCall ℚ) :=
  [.estimate ⟨1 / 2, none, 0, false⟩, .retry, .estimate ⟨1 / 1000, some 5, 1 / 10000, false⟩,
    .estimate ⟨1 / 1000, some 5, 1 / 10000, true⟩]

theorem default_in_bounds :
    let r := run .default halfThenMillis
    (6 ≤ r.state.poll ∧ r.state.poll ≤ 10) ∧
      r.state.burstUsed + r.state.iburstLeft ≤ 16 ∧
      (r.log.countP fun out => decide (out.2.nextPollS ≠ exp2i out.1.poll)) ≤ 16 ∧
      (∀ out ∈ r.log, out.2.nextPollS ≠ exp2i out.1.poll → out.2.nextPollS = 2) ∧
      |r.state.freqPpm| ≤ 500.0 ∧
      (∀ out ∈ r.log, ∀ freq drain rate, out.2.command = .slew freq drain rate →
        0 ≤ rate ∧ rate ≤ 83333.0) ∧
      run .default (halfThenMillis.filter DisciplineCall.isEstimate) = r :=
  discipline_in_bounds .default (by decide) (by decide +kernel) (by decide +kernel)
    (by decide +kernel) halfThenMillis

end DisciplineRun

end RustyTime
