import Mathlib.Algebra.Order.Ring.Abs
import Mathlib.Tactic.Linarith
import Mathlib.Tactic.NormNum
import RustyTime.Spec.Discipline

/-!
# The maximum-change guard and the announced leap second

* `guard_over_history` — what is accepted is within the limit, a refusal moves nothing, and
  refusals are counted in a row
* `counters_le_length` — no counter passes the number of calls
* `leap_announcement_iff` — an announcement leaves a small correction alone unless it steps
-/

namespace RustyTime

set_option linter.unusedSectionVars false

variable {R : Type} [Field R] [LinearOrder R] [IsStrictOrderedRing R]

namespace Discipline

variable {d : Discipline R} {f : Feed R} {offset noise : R} {freqPpmMeas : Option R}

/-! ## One estimate -/

theorem feed_cfg : (d.feed f).1.cfg = d.cfg := by
  cases (onEstimateWithLeap_cases d f.offset f.freqPpmMeas f.offsetSd f.leapPending) with
  | inl h => exact h.cfg
  | inr h =>
    rcases h with h | h
    · exact h.cfg
    · exact h.cfg

theorem feed_updates : (d.feed f).1.updates = d.updates + 1 := by
  have h := feed_outcome d f
  generalize d.feed f = out at h
  cases h with
  | leap => simp [emit, counted]
  | refuse => simp [refuse, emit, counted]
  | step => simp [emit, counted]
  | slew => simp [planSlew, emit, prepareSlew_keeps.updates, counted]

/-- A refusal is counted, and an accepted correction clears the count. -/
theorem feed_changeRefusals :
    (d.feed f).1.changeRefusals =
      if (d.feed f).2.verdict.isAccepted then 0 else d.changeRefusals + 1 := by
  have h := feed_outcome d f
  generalize d.feed f = out at h ⊢
  cases h with
  | leap => simp [emit, ChangeVerdict.isAccepted]
  | refuse =>
    have hverdict : (d.counted.refuse f.offset).2.verdict.isAccepted = false := by
      simp only [refuse, emit]
      split <;> rfl
    rw [hverdict]
    simp [refuse, emit, counted]
  | step => simp [emit, ChangeVerdict.isAccepted]
  | slew => simp [planSlew, emit, prepareSlew_keeps.changeRefusals, ChangeVerdict.isAccepted]

/-- A quiet estimate lengthens the streak by one, any other ends it. -/
theorem feed_stableStreak_le : (d.feed f).1.stableStreak ≤ d.stableStreak + 1 := by
  have h := feed_outcome d f
  generalize d.feed f = out at h ⊢
  cases h with
  | leap => simp [emit, takePollInterval_eq]
  | refuse => simp [refuse, emit, takePollInterval_eq]
  | step => simp [emit, takePollInterval_eq]
  | slew =>
    simp only [planSlew, emit, takePollInterval_eq]
    exact prepareSlew_keeps.stableStreak

/-- What is exempt from the guard was announced, and is the size of a leap second. -/
theorem leapExempt_iff {leapPending : Bool} :
    d.leapExempt offset leapPending = true ↔
      leapPending = true ∧ d.cfg.leapMode ≠ .ignore ∧ |offset| ≤ 2 := by
  have htwo : (leapExemptionS : R) = 2 := by norm_num [leapExemptionS]
  simp [leapExempt, htwo, and_assoc]

theorem refuses_iff {limit : R} (h : d.cfg.maxChangeS = some limit) :
    d.refuses f = true ↔ d.leapExempt f.offset f.leapPending = false ∧
      d.cfg.maxChangeStart < d.updates ∧ limit < |f.offset| := by
  simp [refuses, exceedsMaxChange, h, and_assoc]

/-- Past the early updates, what is accepted is within the limit, or an announced leap. -/
theorem offset_le_of_accepted {limit : R} (h : d.cfg.maxChangeS = some limit)
    (hstart : d.cfg.maxChangeStart < d.updates + 1)
    (haccepted : (d.feed f).2.verdict = .accepted) :
    |f.offset| ≤ limit ∨ f.leapPending = true ∧ d.cfg.leapMode ≠ .ignore ∧ |f.offset| ≤ 2 := by
  have hwithin : d.counted.refuses f = false →
      |f.offset| ≤ limit ∨ f.leapPending = true ∧ d.cfg.leapMode ≠ .ignore ∧ |f.offset| ≤ 2 := by
    intro hno
    rw [← leapExempt_iff]
    by_contra hout
    rw [not_or, not_le, Bool.not_eq_true] at hout
    have hrefuses : d.counted.refuses f = true :=
      (refuses_iff (d := d.counted) h).mpr ⟨hout.2, hstart, hout.1⟩
    exact absurd hrefuses (by simp [hno])
  have hout := feed_outcome d f
  generalize d.feed f = out at hout haccepted
  cases hout with
  | leap hleap => exact .inr (leapExempt_iff.mp (of_decide_eq_true hleap).1)
  | refuse =>
    simp only [refuse, emit] at haccepted
    split at haccepted <;> cases haccepted
  | step haway hno => exact hwithin hno
  | slew hreaches =>
    refine hwithin ?_
    simp only [reachesFreq, Bool.and_eq_true, Bool.not_eq_true'] at hreaches
    exact hreaches.1.2

/-- A refusal moves nothing: the frequency is held, and no poll slot is won. -/
theorem held_of_refused (hrefused : (d.feed f).2.verdict ≠ .accepted) :
    (d.feed f).1.freqPpm = d.freqPpm ∧ (d.feed f).2.command = .slew d.freqPpm 0 0 ∧
      (d.feed f).1.poll = d.poll ∧ (d.feed f).1.iburstLeft ≤ d.iburstLeft := by
  have hout := feed_outcome d f
  generalize d.feed f = out at hout hrefused ⊢
  cases hout with
  | refuse => simp [refuse, emit, counted, takePollInterval_eq]
  | leap => exact absurd rfl hrefused
  | step => exact absurd rfl hrefused
  | slew => exact absurd rfl hrefused

/-- What a refusal says: how many in a row, and when to give up. -/
theorem verdict_of_refused (hrefused : (d.feed f).2.verdict ≠ .accepted) :
    (d.feed f).2.verdict =
      if 0 ≤ d.cfg.maxChangeIgnore ∧ d.cfg.maxChangeIgnore < ((d.changeRefusals + 1 : Nat) : Int)
      then .giveUp f.offset else .refused f.offset (d.changeRefusals + 1) := by
  have hout := feed_outcome d f
  generalize d.feed f = out at hout hrefused ⊢
  cases hout with
  | refuse => rfl
  | leap => exact absurd rfl hrefused
  | step => exact absurd rfl hrefused
  | slew => exact absurd rfl hrefused

end Discipline

/-! ## The guard over a run -/

namespace DisciplineRun

open Discipline

variable {cfg : DisciplineConfig R} {r : DisciplineRun R}

/-- What the state counts is what the record shows, or less. -/
structure Counts (cfg : DisciplineConfig R) (r : DisciplineRun R) : Prop where
  cfg : r.state.cfg = cfg
  updates : r.state.updates = r.log.length
  refusals : r.state.changeRefusals = refusalsInARow r.log
  streak : r.state.stableStreak ≤ r.log.length

theorem refusalsInARow_cons (out : Discipline R × Plan R) (log : List (Discipline R × Plan R)) :
    refusalsInARow (out :: log) =
      if out.2.verdict.isAccepted then 0 else refusalsInARow log + 1 := by
  unfold refusalsInARow
  rw [List.takeWhile_cons]
  cases out.2.verdict.isAccepted <;> simp

theorem Counts.step (h : Counts cfg r) (f : Feed R) : Counts cfg (r.step (.estimate f)) where
  cfg := feed_cfg.trans h.cfg
  updates := by
    show (r.state.feed f).1.updates = _
    rw [feed_updates, h.updates]
    rfl
  refusals := by
    show (r.state.feed f).1.changeRefusals = refusalsInARow (r.state.feed f :: r.log)
    rw [feed_changeRefusals, refusalsInARow_cons, h.refusals]
  streak := feed_stableStreak_le.trans (Nat.succ_le_succ h.streak)

theorem counts_run (cfg : DisciplineConfig R) (calls : List (DisciplineCall R)) :
    Counts cfg (run cfg calls) :=
  run_induction ⟨rfl, rfl, rfl, le_rfl⟩ (fun _ f h => h.step f) calls

theorem refusalsInARow_le (log : List (Discipline R × Plan R)) :
    refusalsInARow log ≤ log.length :=
  (List.takeWhile_prefix _).length_le

theorem log_length_le (calls : List (DisciplineCall R)) (r : DisciplineRun R) :
    (calls.foldl DisciplineRun.step r).log.length ≤ r.log.length + calls.length := by
  induction calls generalizing r with
  | nil => exact le_rfl
  | cons call calls ih =>
    refine (ih _).trans ?_
    cases call with
    | estimate f =>
      simp only [DisciplineRun.step, List.length_cons]
      omega
    | retry =>
      simp only [DisciplineRun.step, List.length_cons]
      omega

/-- No counter of the source passes the number of calls, so none of their 32 bits overflow in a
run of fewer than `2^32`. -/
theorem counters_le_length (cfg : DisciplineConfig R) (calls : List (DisciplineCall R)) :
    (run cfg calls).state.updates ≤ calls.length ∧
      (run cfg calls).state.changeRefusals ≤ calls.length ∧
        (run cfg calls).state.stableStreak ≤ calls.length := by
  have hcounts := counts_run cfg calls
  have hle : (run cfg calls).log.length ≤ calls.length := by
    simpa [run, start] using log_length_le calls (start cfg)
  rw [hcounts.updates, hcounts.refusals]
  exact ⟨hle, (refusalsInARow_le _).trans hle, hcounts.streak.trans hle⟩

/-- The refusals in a row, one estimate later. -/
theorem refusalsInARow_step (h : Counts cfg r) (f : Feed R) :
    refusalsInARow (r.step (.estimate f)).log =
      if (r.state.feed f).2.verdict.isAccepted then 0 else r.state.changeRefusals + 1 := by
  rw [h.refusals]
  exact refusalsInARow_cons _ _

/-- A refusal names the refusals in a row that it ends. -/
theorem seen_of_refused (h : Counts cfg r) {f : Feed R} {offset : R} {seen : Nat}
    (hrefused : (r.state.feed f).2.verdict = .refused offset seen) :
    seen = refusalsInARow (r.step (.estimate f)).log := by
  have hno : (r.state.feed f).2.verdict ≠ .accepted := by simp [hrefused]
  rw [refusalsInARow_step h, hrefused]
  have hverdict := (verdict_of_refused hno).symm.trans hrefused
  split at hverdict
  · cases hverdict
  · cases hverdict
    rfl

/-- The discipline gives up exactly when the refusals in a row pass what it ignores. -/
theorem giveUp_iff (h : Counts cfg r) (f : Feed R) :
    (∃ offset, (r.state.feed f).2.verdict = .giveUp offset) ↔
      0 ≤ cfg.maxChangeIgnore ∧
        cfg.maxChangeIgnore < (refusalsInARow (r.step (.estimate f)).log : Int) := by
  rw [refusalsInARow_step h]
  by_cases haccepted : (r.state.feed f).2.verdict = .accepted
  · rw [haccepted]
    refine iff_of_false (by simp) ?_
    rintro ⟨hnonneg, hspent⟩
    simp only [ChangeVerdict.isAccepted, if_true, Nat.cast_zero] at hspent
    omega
  · have hrefused : (r.state.feed f).2.verdict.isAccepted = false := by
      rw [Bool.eq_false_iff]
      exact fun hacc => haccepted (ChangeVerdict.isAccepted_iff.mp hacc)
    have hverdict := verdict_of_refused haccepted
    rw [h.cfg] at hverdict
    rw [hrefused, hverdict, if_neg Bool.false_ne_true]
    constructor
    · rintro ⟨offset, hgiveUp⟩
      split at hgiveUp
      · next hspent => exact hspent
      · cases hgiveUp
    · intro hspent
      exact ⟨f.offset, if_pos hspent⟩

/-- **The maximum-change guard holds over every history.** The counters are `u32`s in the source:
what is said is of fewer than `2^32` calls, in which none of them overflows or saturates
(`counters_le_length`). -/
theorem guard_over_history (cfg : DisciplineConfig R) (limit : R)
    (hlimit : cfg.maxChangeS = some limit) (calls : List (DisciplineCall R)) (f : Feed R) :
    let r := run cfg calls
    let r' := r.step (.estimate f)
    let plan := (r.state.feed f).2
    (cfg.maxChangeStart < r'.log.length → plan.verdict = .accepted →
        |f.offset| ≤ limit ∨ f.leapPending = true ∧ cfg.leapMode ≠ .ignore ∧ |f.offset| ≤ 2) ∧
      (plan.verdict ≠ .accepted →
        r'.state.freqPpm = r.state.freqPpm ∧ plan.command = .slew r.state.freqPpm 0 0 ∧
          r'.state.poll = r.state.poll ∧ r'.state.iburstLeft ≤ r.state.iburstLeft) ∧
      (∀ offset seen, plan.verdict = .refused offset seen → seen = refusalsInARow r'.log) ∧
      ((∃ offset, plan.verdict = .giveUp offset) ↔
        0 ≤ cfg.maxChangeIgnore ∧ cfg.maxChangeIgnore < (refusalsInARow r'.log : Int)) := by
  intro r r' plan
  have hcounts := counts_run cfg calls
  refine ⟨?_, held_of_refused, fun offset seen => seen_of_refused hcounts, giveUp_iff hcounts f⟩
  intro hstart haccepted
  rw [← hcounts.cfg] at hlimit hstart ⊢
  refine offset_le_of_accepted hlimit ?_ haccepted
  rw [hcounts.updates]
  exact hstart

/-- A guard of a tenth of a second, from the first update. -/
def guarded : DisciplineConfig ℚ :=
  { DisciplineConfig.default with maxChangeS := some (1 / 10), maxChangeStart := 0 }

/-- The third refusal in a row gives up. -/
theorem guarded_gives_up :
    ∃ offset, ((run guarded (.replicate 2 (.estimate ⟨1, none, 0, false⟩))).state.feed
      ⟨1, none, 0, false⟩).2.verdict = .giveUp offset :=
  (guard_over_history guarded (1 / 10) rfl (.replicate 2 (.estimate ⟨1, none, 0, false⟩))
    ⟨1, none, 0, false⟩).2.2.2.mpr (by decide +kernel)

end DisciplineRun

/-! ## The announced leap second -/

namespace Discipline

variable {d : Discipline R} {f : Feed R}

/-- An accepted slew got as far as the frequency update. -/
theorem reachesFreq_of_slew (haccepted : (d.feed f).2.verdict = .accepted)
    (hslew : (d.feed f).2.command.isSlew = true) :
    d.counted.reachesFreq f = true ∧
      d.feed f = ({ d.counted with changeRefusals := 0 } : Discipline R).planSlew f.offset
        f.freqPpmMeas f.offsetSd := by
  have hout := feed_outcome d f
  generalize d.feed f = out at hout haccepted hslew ⊢
  cases hout with
  | leap => simp [emit, ClockCommand.isSlew] at hslew
  | step => simp [emit, ClockCommand.isSlew] at hslew
  | refuse =>
    simp only [refuse, emit] at haccepted
    split at haccepted <;> cases haccepted
  | slew hreaches => exact ⟨hreaches, rfl⟩

/-- An estimate that gets as far as the frequency update is slewed. -/
theorem feed_of_reachesFreq (hreaches : d.counted.reachesFreq f = true) :
    d.feed f = ({ d.counted with changeRefusals := 0 } : Discipline R).planSlew f.offset
      f.freqPpmMeas f.offsetSd := by
  have hout := feed_outcome d f
  generalize d.feed f = out at hout ⊢
  cases hout with
  | leap hleap => simp [reachesFreq, hleap] at hreaches
  | refuse hrefuses => simp [reachesFreq, hrefuses] at hreaches
  | step haway => simp [reachesFreq, haway] at hreaches
  | slew => rfl

/-- An announcement lets no more estimates be refused. -/
theorem refuses_of_announced {offset offsetSd : R} {freqPpmMeas : Option R}
    (h : d.refuses ⟨offset, freqPpmMeas, offsetSd, false⟩ = false) :
    d.refuses ⟨offset, freqPpmMeas, offsetSd, true⟩ = false := by
  unfold refuses exceedsMaxChange at h ⊢
  cases hlimit : d.cfg.maxChangeS with
  | none => rfl
  | some limit =>
    rw [hlimit] at h
    cases hexempt : d.leapExempt offset true with
    | true => rfl
    | false => simpa [leapExempt, hexempt] using h

/-- **An announced leap second leaves a small correction alone unless it steps.** -/
theorem leap_announcement_iff (d : Discipline R) (offset : R) (freqPpmMeas : Option R)
    (offsetSd : R) (hsmall : |offset| < 0.5)
    (haccepted : (d.feed ⟨offset, freqPpmMeas, offsetSd, false⟩).2.verdict = .accepted)
    (hslew : (d.feed ⟨offset, freqPpmMeas, offsetSd, false⟩).2.command.isSlew = true) :
    d.feed ⟨offset, freqPpmMeas, offsetSd, true⟩ = d.feed ⟨offset, freqPpmMeas, offsetSd, false⟩ ↔
      d.cfg.leapMode ≠ .step := by
  obtain ⟨hreaches, hplan⟩ := reachesFreq_of_slew haccepted hslew
  simp only [reachesFreq, Bool.and_eq_true, Bool.not_eq_true'] at hreaches
  obtain ⟨⟨-, hrefuses⟩, haway⟩ := hreaches
  constructor
  · -- a step is no slew
    intro hsame hmode
    have hexempt : d.counted.leapExempt offset true = true := by
      refine leapExempt_iff.mpr ⟨rfl, ?_, ?_⟩
      · show d.cfg.leapMode ≠ .ignore
        simp [hmode]
      · refine hsmall.le.trans ?_
        norm_num
    have hleap : d.counted.stepsLeap ⟨offset, freqPpmMeas, offsetSd, true⟩ = true :=
      decide_eq_true ⟨hexempt, hmode⟩
    have hout := feed_outcome d ⟨offset, freqPpmMeas, offsetSd, true⟩
    rw [hsame] at hout
    generalize d.feed ⟨offset, freqPpmMeas, offsetSd, false⟩ = out at hout hslew
    cases hout with
    | leap => simp [emit, ClockCommand.isSlew] at hslew
    | refuse _ hno => exact absurd hleap (by simp [hno])
    | step _ _ hno => exact absurd hleap (by simp [hno])
    | slew hreaches => simp [reachesFreq, hleap] at hreaches
  · intro hmode
    have hleap : d.counted.stepsLeap ⟨offset, freqPpmMeas, offsetSd, true⟩ = false :=
      decide_eq_false fun h => hmode h.2
    rw [hplan]
    refine feed_of_reachesFreq ?_
    simp [reachesFreq, hleap, refuses_of_announced hrefuses, haway]

/-- A leap second is to be stepped. -/
def stepping : DisciplineConfig ℚ := { DisciplineConfig.default with leapMode := .step }

theorem leap_announcement_changes_small :
    ¬∀ (cfg : DisciplineConfig ℚ) (calls : List (DisciplineCall ℚ)) (offset : ℚ)
      (freqPpmMeas : Option ℚ) (offsetSd : ℚ), |offset| < 0.5 →
        let d := (DisciplineRun.run cfg calls).state
        (d.feed ⟨offset, freqPpmMeas, offsetSd, false⟩).2.verdict = .accepted →
        (d.feed ⟨offset, freqPpmMeas, offsetSd, false⟩).2.command.isSlew = true →
        d.feed ⟨offset, freqPpmMeas, offsetSd, true⟩ =
          d.feed ⟨offset, freqPpmMeas, offsetSd, false⟩ := by
  intro h
  have hsame := h stepping [] (1 / 1000) none 0 (by decide +kernel) (by decide +kernel)
    (by decide +kernel)
  have hcommand := congrArg (fun out => out.2.command) hsame
  exact absurd hcommand (by decide +kernel)

/-- By default the second is slewed, and its announcement leaves a millisecond alone. -/
theorem leap_announcement_default :
    (Discipline.new DisciplineConfig.default).feed (⟨1 / 1000, none, 0, true⟩ : Feed ℚ) =
      (Discipline.new DisciplineConfig.default).feed ⟨1 / 1000, none, 0, false⟩ :=
  (leap_announcement_iff (Discipline.new DisciplineConfig.default) (1 / 1000 : ℚ) none 0
    (by decide +kernel) (by decide +kernel) (by decide +kernel)).mpr (by decide)

end Discipline

end RustyTime
