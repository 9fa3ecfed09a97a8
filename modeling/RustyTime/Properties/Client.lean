import Mathlib.Algebra.Order.Ring.Defs
import RustyTime.Core.Client

/-!
# What the controller's operations change

The fields each operation of the controller writes, one lemma a field, and the outcomes of
`poll_drain`.
-/

namespace RustyTime.MultiController

set_option linter.unusedSectionVars false

variable {R : Type} [Field R] [LinearOrder R] {c : MultiController R} {std : StdFloat R}
  {monoNowS : R} {index : Nat} {sample : Sample R}

/-! ## A register re-expressed -/

/-- A register forgets a change of nothing. -/
theorem slewSamples_zero (reg : SampleRegister R) (tChange : R) :
    reg.slewSamples tChange 0 0 = reg := by
  have hid : SampleRegister.slewSample tChange (0 : R) 0 = id := by
    funext s
    simp [SampleRegister.slewSample]
  show { reg with samples := _ } = reg
  rw [hid, List.map_id, List.take_append_drop]

theorem map_slewSamples_zero (registers : List (SampleRegister R)) (tChange : R) :
    registers.map (fun r => r.slewSamples tChange 0 0) = registers :=
  List.map_id'' (fun r => slewSamples_zero r tChange) registers

/-! ## What has drained -/

/-- Nothing drains at a rate of 0. -/
theorem drained_of_drainPpm_eq_zero (h : c.drainPpm = 0) (t : R) : c.drained t = 0 := by
  unfold drained
  split
  · exact if_neg fun hne => hne h
  · rfl

theorem drained_eq [IsStrictOrderedRing R] {b : R} (hb : c.drainBookedUntil = some b)
    (hle : b ≤ monoNowS) : c.drained monoNowS = c.drainPpm * 1e-6 * (monoNowS - b) := by
  unfold drained
  rw [hb]
  by_cases hd : c.drainPpm = 0
  · simp [hd]
  · simp only [ne_eq, hd, not_false_eq_true, if_true]
    rw [max_eq_left (sub_nonneg.mpr hle)]

theorem consumed_eq_drained {last : R} (hlast : c.drainBookedUntil = some last) :
    c.drainPpm * 1e-6 * max (monoNowS - last) 0 = c.drained monoNowS := by
  unfold drained
  rw [hlast]
  by_cases hd : c.drainPpm = 0
  · simp [hd]
  · simp [hd]

/-! ## Settling -/

/-- Every register is told what has drained. -/
theorem settleDrain_registers : (c.settleDrain monoNowS).registers =
    c.registers.map fun r => r.slewSamples monoNowS 0 (c.drained monoNowS) := by
  unfold settleDrain
  by_cases hd : c.drained monoNowS = 0
  · simp [hd, map_slewSamples_zero]
  · simp [hd, slewRegisters]

@[simp] theorem settleDrain_discipline :
    (c.settleDrain monoNowS).discipline = c.discipline := by
  unfold settleDrain
  dsimp only
  split <;> rfl

@[simp] theorem settleDrain_freqCmdPpm :
    (c.settleDrain monoNowS).freqCmdPpm = c.freqCmdPpm := by
  unfold settleDrain
  dsimp only
  split <;> rfl

@[simp] theorem settleDrain_drainPpm : (c.settleDrain monoNowS).drainPpm = c.drainPpm := by
  unfold settleDrain
  dsimp only
  split <;> rfl

@[simp] theorem settleDrain_lastPlanMonoS :
    (c.settleDrain monoNowS).lastPlanMonoS = c.lastPlanMonoS := by
  unfold settleDrain
  dsimp only
  split <;> rfl

@[simp] theorem settleDrain_drainBookedUntil :
    (c.settleDrain monoNowS).drainBookedUntil = c.drainBookedUntil.map fun _ => monoNowS := by
  unfold settleDrain
  dsimp only
  split <;> rfl

/-- The budget a settlement leaves. -/
theorem settleDrain_drainRemainingS : (c.settleDrain monoNowS).drainRemainingS =
    if c.drained monoNowS ≠ 0 then max (c.drainRemainingS - |c.drained monoNowS|) 0
    else c.drainRemainingS := by
  unfold settleDrain
  dsimp only
  split <;> rfl

/-! ## Measuring -/

/-- An estimate caches weights in a register, and that is all. -/
theorem exists_registers_estimate (std : StdFloat R) (c : MultiController R) (index : Nat)
    (monoNowS : R) : ∃ registers,
      (c.estimate std index monoNowS).1 = { c with registers := registers } := by
  unfold estimate
  split
  · exact ⟨c.registers, rfl⟩
  · exact ⟨_, rfl⟩

/-- Beside the registers an observation only settles the drain. -/
theorem exists_registers_observe (std : StdFloat R) (c : MultiController R) (index : Nat)
    (monoNowS : R) (sample : Sample R) : ∃ registers,
      (c.observe std index monoNowS sample).1 =
        { c.settleDrain monoNowS with registers := registers } :=
  exists_registers_estimate std { c.settleDrain monoNowS with
    registers := (c.settleDrain monoNowS).registers.modify index fun r => r.push sample }
    index monoNowS

@[simp] theorem observe_discipline :
    (c.observe std index monoNowS sample).1.discipline = c.discipline := by
  obtain ⟨registers, h⟩ := exists_registers_observe std c index monoNowS sample
  simp [h]

@[simp] theorem observe_freqCmdPpm :
    (c.observe std index monoNowS sample).1.freqCmdPpm = c.freqCmdPpm := by
  obtain ⟨registers, h⟩ := exists_registers_observe std c index monoNowS sample
  simp [h]

@[simp] theorem observe_drainPpm :
    (c.observe std index monoNowS sample).1.drainPpm = c.drainPpm := by
  obtain ⟨registers, h⟩ := exists_registers_observe std c index monoNowS sample
  simp [h]

@[simp] theorem observe_lastPlanMonoS :
    (c.observe std index monoNowS sample).1.lastPlanMonoS = c.lastPlanMonoS := by
  obtain ⟨registers, h⟩ := exists_registers_observe std c index monoNowS sample
  simp [h]

@[simp] theorem observe_drainBookedUntil :
    (c.observe std index monoNowS sample).1.drainBookedUntil =
      c.drainBookedUntil.map fun _ => monoNowS := by
  obtain ⟨registers, h⟩ := exists_registers_observe std c index monoNowS sample
  simp [h]

theorem observe_drainRemainingS : (c.observe std index monoNowS sample).1.drainRemainingS =
    if c.drained monoNowS ≠ 0 then max (c.drainRemainingS - |c.drained monoNowS|) 0
    else c.drainRemainingS := by
  obtain ⟨registers, h⟩ := exists_registers_observe std c index monoNowS sample
  rw [h]
  exact settleDrain_drainRemainingS

/-! ## Retiring a drain -/

theorem retireDrain_registers {last : R} (hlast : c.drainBookedUntil = some last) :
    (c.retireDrain last monoNowS).registers =
      c.registers.map fun r => r.slewSamples monoNowS 0 (c.drained monoNowS) := by
  unfold retireDrain
  rw [consumed_eq_drained hlast]
  by_cases hd : c.drained monoNowS = 0
  · simp [hd, map_slewSamples_zero]
  · simp [hd, slewRegisters]

@[simp] theorem retireDrain_discipline (last : R) :
    (c.retireDrain last monoNowS).discipline = c.discipline := by
  unfold retireDrain
  dsimp only
  split <;> rfl

@[simp] theorem retireDrain_freqCmdPpm (last : R) :
    (c.retireDrain last monoNowS).freqCmdPpm = c.freqCmdPpm := by
  unfold retireDrain
  dsimp only
  split <;> rfl

@[simp] theorem retireDrain_drainPpm (last : R) : (c.retireDrain last monoNowS).drainPpm = 0 := rfl

/-- A retired drain leaves the frequency alone, and says so to the driver. -/
theorem pollDrain_cases (c : MultiController R) (monoNowS : R) :
    c.pollDrain monoNowS = (c, none) ∨
      c.drainPpm ≠ 0 ∧ (∃ last, c.drainBookedUntil = some last ∧
        (c.pollDrain monoNowS).1 = c.retireDrain last monoNowS) ∧
        (c.pollDrain monoNowS).2 = some (.slew c.freqCmdPpm 0 0) := by
  unfold pollDrain
  split
  · exact .inl rfl
  · next completesAt hcompletes =>
    split
    · exact .inl rfl
    · split
      · exact .inl rfl
      · next last hlast =>
        refine .inr ⟨?_, ⟨last, hlast, rfl⟩, rfl⟩
        intro hzero
        unfold drainCompletesAt at hcompletes
        split at hcompletes
        · exact absurd hcompletes.symm (Option.some_ne_none _)
        · rw [if_pos (.inl hzero)] at hcompletes
          exact absurd hcompletes.symm (Option.some_ne_none _)

end RustyTime.MultiController
