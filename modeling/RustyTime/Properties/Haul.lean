import RustyTime.Infra.Run
import RustyTime.Properties.Guard

/-!
# Frequency measurements after a haul

`last_drain_share` is written by the slew exit of `on_estimate_with_leap` alone, so it remembers
the last accepted slew, not the previous plan.

* `feed_moves` — an estimate corrects the frequency by its measurement and its trim
* `feed_besidesFreq`, `moves_besidesFreq` — which does not depend on the frequency
* `withheld_after_haul_iff` — the difference shows where a haul is followed by a step or a
  refusal, and then by a measurement
-/

namespace RustyTime

set_option linter.unusedSectionVars false

variable {R : Type} [Field R] [LinearOrder R] [IsStrictOrderedRing R]

namespace Discipline

variable {d : Discipline R} {f : Feed R}

/-- What does not get as far as the frequency update leaves the frequency alone. -/
theorem feed_freqPpm_of_not_reached (h : d.counted.reachesFreq f = false) :
    (d.feed f).1.freqPpm = d.freqPpm := by
  have hout := feed_outcome d f
  generalize d.feed f = out at hout ⊢
  cases hout with
  | leap => simp [emit, counted]
  | refuse => simp [refuse, emit, counted]
  | step => simp [emit, counted]
  | slew hreaches => exact absurd hreaches (by simp [h])

/-- The slow average does not read the frequency, nor what the guards count. -/
theorem averageOffset_congr (d d' : Discipline R) (hseeded : d'.ewmaSeeded = d.ewmaSeeded)
    (hewma : d'.offsetEwma = d.offsetEwma) (offset : R) :
    (d'.averageOffset offset).offsetEwma = (d.averageOffset offset).offsetEwma := by
  unfold averageOffset
  rw [hseeded]
  split
  · dsimp only
    rw [hewma]
  · rfl

/-- The integral trim as a correction, or none. -/
theorem integralTrim_freqPpm (d : Discipline R) (noise : R) :
    (d.integralTrim noise).freqPpm =
      (if d.cfg.freqIntegralGain ≠ 0 ∧ acquireUpdates < d.updates ∧ noise < |d.offsetEwma| then
        some (d.cfg.freqIntegralGain *
          (d.offsetEwma / (corrTimeRatioDefault * d.peekPollInterval) * 1e6))
      else none).toList.foldl d.cfg.correct d.freqPpm := by
  unfold integralTrim
  split <;> rfl

/-- The accumulated measurement as a correction, or none. -/
theorem accumulateFreq_eq (d : Discipline R) (freqPpmMeas : Option R) :
    d.accumulateFreq freqPpmMeas = { d with
      freqPpm := (if ¬freqTrustSlewShare < d.lastDrainShare then freqPpmMeas else none).toList.foldl
        d.cfg.correct d.freqPpm } := by
  unfold accumulateFreq
  cases freqPpmMeas with
  | none => simp
  | some fm =>
    by_cases hhauling : freqTrustSlewShare < d.lastDrainShare
    · simp [hhauling]
    · simp [hhauling, DisciplineConfig.correct]

/-- An estimate that gets as far accumulates its measurement, where it takes that. -/
theorem accumulateFreq_measured (hreaches : d.counted.reachesFreq f = true) :
    ({ d.counted with changeRefusals := 0 } : Discipline R).accumulateFreq f.freqPpmMeas =
      { d with
        updates := d.updates + 1
        freqPpm := (d.measured f).toList.foldl d.cfg.correct d.freqPpm
        changeRefusals := 0 } := by
  have hmeasured : d.measured f =
      if ¬freqTrustSlewShare < d.lastDrainShare then f.freqPpmMeas else none := by
    simp [measured, hreaches]
  rw [accumulateFreq_eq, hmeasured]
  rfl

/-- **An estimate corrects the frequency by its measurement and its trim**, where it takes them. -/
theorem feed_moves (d : Discipline R) (f : Feed R) :
    (d.feed f).1.freqPpm = (d.moves f).foldl d.cfg.correct d.freqPpm := by
  cases hreaches : d.counted.reachesFreq f with
  | false =>
    rw [feed_freqPpm_of_not_reached hreaches]
    simp [moves, measured, trim, hreaches]
  | true =>
    rw [feed_of_reachesFreq hreaches]
    simp only [planSlew, emit, takePollInterval_freqPpm]
    rw [prepareSlew, extendBurst_freqPpm, adaptPoll_freqPpm, accumulateFreq_measured hreaches, moves,
      List.foldl_append]
    generalize (d.measured f).toList.foldl d.cfg.correct d.freqPpm = freq
    -- the trim reads the average, which is the same with the frequency corrected
    have haverage := averageOffset_congr d
      { d with updates := d.updates + 1, freqPpm := freq, changeRefusals := 0 } rfl rfl f.offset
    obtain ⟨ewma, seeded, heq⟩ := exists_averageOffset
      { d with updates := d.updates + 1, freqPpm := freq, changeRefusals := 0 } f.offset
    rw [heq] at haverage ⊢
    have htrim : d.trim f = if d.cfg.freqIntegralGain ≠ 0 ∧ acquireUpdates < d.updates + 1 ∧
        max f.offsetSd 1e-7 < |ewma| then
          some (d.cfg.freqIntegralGain *
            (ewma / (corrTimeRatioDefault * d.peekPollInterval) * 1e6))
        else none := by
      simp only [trim, ← haverage, hreaches, true_and]
      rfl
    rw [integralTrim_freqPpm, htrim]
    rfl

/-! ### A discipline but for its frequency -/

/-- The rest of a discipline. -/
def besidesFreq (d : Discipline R) : Discipline R := { d with freqPpm := 0 }

theorem accumulateFreq_besidesFreq (d : Discipline R) (freqPpmMeas : Option R) :
    (d.accumulateFreq freqPpmMeas).besidesFreq = d.besidesFreq := by
  obtain ⟨freq, h⟩ := exists_accumulateFreq d freqPpmMeas
  rw [h]
  rfl

theorem averageOffset_besidesFreq (d : Discipline R) (offset : R) :
    (d.averageOffset offset).besidesFreq = d.besidesFreq.averageOffset offset := by
  unfold averageOffset besidesFreq
  split <;> rfl

theorem integralTrim_besidesFreq (d : Discipline R) (noise : R) :
    (d.integralTrim noise).besidesFreq = d.besidesFreq := by
  obtain ⟨freq, h⟩ := exists_integralTrim d noise
  rw [h]
  rfl

theorem adaptPoll_besidesFreq (d : Discipline R) (offset noise : R) :
    (d.adaptPoll offset noise).besidesFreq = d.besidesFreq.adaptPoll offset noise := by
  unfold adaptPoll besidesFreq
  dsimp only
  split
  · split <;> rfl
  · split <;> rfl

theorem extendBurst_besidesFreq (d : Discipline R) (offset noise : R) :
    (d.extendBurst offset noise).besidesFreq = d.besidesFreq.extendBurst offset noise := by
  unfold extendBurst besidesFreq
  split <;> rfl

theorem takePollInterval_besidesFreq (d : Discipline R) :
    d.takePollInterval.besidesFreq = d.besidesFreq.takePollInterval := by
  unfold takePollInterval besidesFreq
  split <;> rfl

theorem emit_besidesFreq {d d' : Discipline R} {command command' : ClockCommand R}
    {reset reset' : Bool} {verdict verdict' : ChangeVerdict R} (h : d.besidesFreq = d'.besidesFreq) :
    (d.emit command reset verdict).1.besidesFreq =
      (d'.emit command' reset' verdict').1.besidesFreq := by
  refine (takePollInterval_besidesFreq d).trans ?_
  rw [h]
  exact (takePollInterval_besidesFreq d').symm

theorem prepareSlew_besidesFreq (d : Discipline R) (offset : R) (freqPpmMeas : Option R)
    (noise : R) :
    (d.prepareSlew offset freqPpmMeas noise).besidesFreq =
      ((d.besidesFreq.averageOffset offset).adaptPoll offset noise).extendBurst offset noise := by
  rw [prepareSlew, extendBurst_besidesFreq, adaptPoll_besidesFreq, integralTrim_besidesFreq,
    averageOffset_besidesFreq, accumulateFreq_besidesFreq]

theorem planSlew_besidesFreq (d : Discipline R) (offset : R) (freqPpmMeas : Option R)
    (offsetSd : R) :
    (d.planSlew offset freqPpmMeas offsetSd).1.besidesFreq =
      (d.besidesFreq.planSlew offset freqPpmMeas offsetSd).1.besidesFreq := by
  have hsame : (d.prepareSlew offset freqPpmMeas (max offsetSd 1e-7)).besidesFreq =
      (d.besidesFreq.prepareSlew offset freqPpmMeas (max offsetSd 1e-7)).besidesFreq := by
    rw [prepareSlew_besidesFreq, prepareSlew_besidesFreq]
    rfl
  -- the share of the ceiling that drains is a function of that rest
  exact emit_besidesFreq (congrArg (fun rest : Discipline R => { rest with
    lastDrainShare := if 0 < rest.cfg.maxSlewPpm then
      rest.drainRatePpm offset (max offsetSd 1e-7) / rest.cfg.maxSlewPpm else 0 }) hsame)

/-- What an estimate leaves of the rest is decided by the rest. -/
theorem feed_besidesFreq (d : Discipline R) (f : Feed R) :
    (d.feed f).1.besidesFreq = (d.besidesFreq.feed f).1.besidesFreq := by
  have hleap : d.besidesFreq.counted.stepsLeap f = d.counted.stepsLeap f := rfl
  have hrefuses : d.besidesFreq.counted.refuses f = d.counted.refuses f := rfl
  have haway : d.besidesFreq.counted.stepsAway f.offset = d.counted.stepsAway f.offset := rfl
  rw [feed_eq, feed_eq, hleap, hrefuses, haway]
  split
  · exact emit_besidesFreq rfl
  · split
    · exact emit_besidesFreq rfl
    · split
      · exact emit_besidesFreq rfl
      · exact planSlew_besidesFreq _ _ _ _

/-- And so is what it corrects the frequency by. -/
theorem moves_besidesFreq (d : Discipline R) (f : Feed R) :
    d.moves f = d.besidesFreq.moves f := by
  have haverage := averageOffset_congr d d.besidesFreq rfl rfl f.offset
  unfold moves trim
  dsimp only
  rw [haverage]
  rfl

/-! ### What the last drain was -/

theorem slewRate_of_refused {plan : Plan R} (h : plan.verdict ≠ .accepted) :
    DisciplineRun.slewRate plan = none := by
  unfold DisciplineRun.slewRate
  split
  · next haccepted _ => exact absurd haccepted h
  · rfl

/-- The share of the ceiling is remembered from an accepted slew, and from nothing else. -/
theorem feed_lastDrainShare (hslew : 0 < d.cfg.maxSlewPpm) :
    (d.feed f).1.lastDrainShare =
      match DisciplineRun.slewRate (d.feed f).2 with
      | some rate => rate / d.cfg.maxSlewPpm
      | none => d.lastDrainShare := by
  have hout := feed_outcome d f
  generalize d.feed f = out at hout ⊢
  cases hout with
  | leap => simp [emit, DisciplineRun.slewRate, counted]
  | step => simp [emit, DisciplineRun.slewRate, counted]
  | refuse =>
    have hrefused : (d.counted.refuse f.offset).2.verdict ≠ .accepted := by
      simp only [refuse, emit]
      split <;> simp
    rw [slewRate_of_refused hrefused]
    simp [refuse, emit, counted]
  | slew =>
    have hcfg : (({ d.counted with changeRefusals := 0 } : Discipline R).prepareSlew f.offset
        f.freqPpmMeas (max f.offsetSd 1e-7)).cfg = d.cfg := prepareSlew_cfg
    simp [planSlew, emit, DisciplineRun.slewRate, hcfg, hslew]

/-- A plan that drains is an accepted slew. -/
theorem slewRate_of_drains {freq drain rate : R}
    (hcommand : (d.feed f).2.command = .slew freq drain rate) (hrate : rate ≠ 0) :
    DisciplineRun.slewRate (d.feed f).2 = some rate := by
  have hout := feed_outcome d f
  generalize d.feed f = out at hout hcommand ⊢
  cases hout with
  | leap => exact nomatch hcommand
  | step => exact nomatch hcommand
  | refuse =>
    cases hcommand
    exact absurd rfl hrate
  | slew =>
    cases hcommand
    rfl

end Discipline

namespace DisciplineRun

open Discipline

variable {cfg : DisciplineConfig R} {r : DisciplineRun R}

/-- What the state remembers of the drains on record. -/
structure Remembers (cfg : DisciplineConfig R) (r : DisciplineRun R) : Prop where
  config : r.state.cfg = cfg
  share : r.state.lastDrainShare = (lastRate r.log).getD 0 / cfg.maxSlewPpm
  /-- If the plan emitted last hauls, it is the last accepted slew. -/
  last : r.followsHaul = true → (lastRate r.log).any r.hauls = true

theorem Remembers.step (hslew : 0 < cfg.maxSlewPpm) (h : Remembers cfg r) (f : Feed R) :
    Remembers cfg (r.step (.estimate f)) where
  config := feed_cfg.trans h.config
  share := by
    have hshare := feed_lastDrainShare (d := r.state) (f := f) (h.config ▸ hslew)
    show (r.state.feed f).1.lastDrainShare =
      (lastRate (r.state.feed f :: r.log)).getD 0 / cfg.maxSlewPpm
    rw [hshare, h.config, lastRate, List.findSome?_cons]
    cases slewRate (r.state.feed f).2 with
    | none => exact h.share
    | some rate => rfl
  last := by
    intro hhaul
    have hcfg : (r.step (.estimate f)).state.cfg = cfg := feed_cfg.trans h.config
    cases hcommand : (r.state.feed f).2.command with
    | step addSeconds =>
      simp [followsHaul, DisciplineRun.step, hcommand] at hhaul
    | slew freq drain rate =>
      have hrate : (r.step (.estimate f)).hauls rate = true := by
        simpa [followsHaul, DisciplineRun.step, hcommand] using hhaul
      have hpos : rate ≠ 0 := by
        have hceiling : 0 < freqTrustSlewShare * cfg.maxSlewPpm :=
          mul_pos (by norm_num [freqTrustSlewShare]) hslew
        simp only [hauls, hcfg, decide_eq_true_eq] at hrate
        exact (hceiling.trans hrate).ne'
      have hlast := slewRate_of_drains hcommand hpos
      show (lastRate (r.state.feed f :: r.log)).any _ = true
      rw [lastRate, List.findSome?_cons, hlast]
      exact hrate

theorem remembers_start (cfg : DisciplineConfig R) : Remembers cfg (start cfg) where
  config := rfl
  share := by simp [start, Discipline.new, lastRate]
  last := by simp [start, followsHaul]

/-- The clock counts as hauled where the last accepted slew hauled it. -/
theorem Remembers.hauling_iff (hslew : 0 < cfg.maxSlewPpm) (h : Remembers cfg r) :
    freqTrustSlewShare < r.state.lastDrainShare ↔ (lastRate r.log).any r.hauls = true := by
  rw [h.share, lt_div_iff₀ hslew]
  cases lastRate r.log with
  | none =>
    have hceiling : 0 < freqTrustSlewShare * cfg.maxSlewPpm :=
      mul_pos (by norm_num [freqTrustSlewShare]) hslew
    simpa using hceiling.le
  | some rate => simp [hauls, h.config]

/-- The frequency after an estimate: its measurement, then its trim. -/
theorem step_freqPpm (r : DisciplineRun R) (f : Feed R) :
    (r.step (.estimate f)).state.freqPpm =
      r.trimmed f ((r.state.measured f).elim r.state.freqPpm
        (r.state.cfg.correct r.state.freqPpm)) := by
  show (r.state.feed f).1.freqPpm = _
  rw [feed_moves, moves, List.foldl_append]
  unfold trimmed
  cases r.state.measured f <;> cases r.state.trim f <;> rfl

/-- A measurement is withheld right after a haul alone, unless it meets a stale one. -/
theorem withholds_iff (hslew : 0 < cfg.maxSlewPpm) (h : Remembers cfg r)
    (call : DisciplineCall R) : r.Withholds call ↔ r.NotStale call := by
  cases call with
  | retry => exact Iff.rfl
  | estimate f =>
    refine forall_congr' fun hreaches => forall_congr' fun fm => forall_congr' fun hfm => ?_
    have hhauling := h.hauling_iff hslew
    have hnext := step_freqPpm r f
    unfold staleHaul
    by_cases hlast : (lastRate r.log).any r.hauls = true
    · -- the last accepted slew hauled, and the measurement is withheld
      have hnone : r.state.measured f = none := if_neg fun hm => hm.2 (hhauling.mpr hlast)
      rw [hnext, hnone, hlast]
      cases r.followsHaul with
      | true => simp
      | false => simp [eq_comm]
    · have hfollows : r.followsHaul = false := Bool.eq_false_iff.mpr fun hf => hlast (h.last hf)
      have hsome : r.state.measured f = some fm :=
        (if_pos ⟨hreaches, fun hh => hlast (hhauling.mp hh)⟩).trans hfm
      rw [hnext, hsome, hfollows]
      simp [hlast]

/-- **Measurements are withheld exactly after a haul in the runs without a stale one.** -/
theorem withheld_after_haul_iff (cfg : DisciplineConfig R) (hslew : 0 < cfg.maxSlewPpm)
    (calls : List (DisciplineCall R)) :
    Infra.Run.Along step Withholds (start cfg) calls ↔
      Infra.Run.Along step NotStale (start cfg) calls := by
  refine Infra.Run.along_iff (Remembers cfg) ?_ ?_ (remembers_start cfg)
    (Infra.Run.along_of_forall (P := fun _ _ => True) (fun _ _ => trivial) _ calls)
  · intro r call h _
    cases call with
    | estimate f => exact h.step hslew f
    | retry => exact h
  · exact fun r call h _ => withholds_iff hslew h call

/-- A guard of a second. The second estimate is refused after a haul, the third measures. -/
def hauled : DisciplineConfig ℚ :=
  { DisciplineConfig.default with maxChangeS := some 1, maxChangeStart := 0 }

def hauledThenRefused : List (DisciplineCall ℚ) :=
  [.estimate ⟨1 / 2, none, 0, false⟩, .estimate ⟨10, none, 0, false⟩,
    .estimate ⟨0, some 5, 0, false⟩]

theorem hauledThenRefused_withholds :
    ¬∀ (cfg : DisciplineConfig ℚ), 0 < cfg.maxSlewPpm → ∀ calls,
      Infra.Run.Along step Withholds (start cfg) calls := by
  intro h
  have hthird := (h hauled (by decide +kernel) hauledThenRefused).2.2.1 (by decide +kernel) 5 rfl
  exact absurd hthird (by decide +kernel)

/-- A measurement right after the haul is withheld as it should be. -/
theorem hauled_withholds :
    Infra.Run.Along step Withholds (start hauled)
      [.estimate ⟨1 / 2, none, 0, false⟩, .estimate ⟨0, some 5, 0, false⟩] := by
  refine (withheld_after_haul_iff hauled (by decide +kernel) _).mpr ⟨?_, ?_, trivial⟩
  · intro _ fm hfm
    exact nomatch hfm
  · intro _ fm _ hstale
    exact absurd hstale (by decide +kernel)

end DisciplineRun

end RustyTime
