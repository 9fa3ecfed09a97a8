import RustyTime.Infra.Run
import RustyTime.Properties.Client
import RustyTime.Properties.Haul
import RustyTime.Spec.ClientLedger
import RustyTime.Spec.Plant

/-!
# The preloaded frequency

`preload_frequency` writes the controller's copy of the commanded frequency. The discipline keeps
its own, from which every plan starts, and the first `steer` overwrites the first with the second.

* `preloaded_run_iff` — the frequency goes on from the preloaded one exactly where the first
  plan comes to the same without it
-/

namespace RustyTime

set_option linter.unusedSectionVars false

variable {R : Type} [Field R] [LinearOrder R]

/-- The discipline is fed with an estimate. -/
def Estimate.feed (est : Estimate R) (leapPending : Bool) : Feed R :=
  ⟨est.offsetS, est.freqPpm, est.sdS, leapPending⟩

/-- The measurement a plan accepted, 0 if it accepted none. -/
def ControllerStep.acceptedFreq (d : Discipline R) (step : ControllerStep R) : R :=
  if step.usesFrequency d then step.estimateFreqPpm.getD 0 else 0

namespace Discipline

variable [IsStrictOrderedRing R] {d : Discipline R} {f : Feed R}

/-- The measurement an estimate gets accepted. -/
def accepted (d : Discipline R) (f : Feed R) : R :=
  if d.counted.reachesFreq f = true ∧ ¬freqTrustSlewShare < d.lastDrainShare then
    f.freqPpmMeas.getD 0
  else 0

/-- Without the integral trim an estimate adds what is accepted of it. -/
theorem feed_freqPpm_eq (hgain : d.cfg.freqIntegralGain = 0)
    (hfreq : |d.freqPpm| ≤ d.cfg.maxFreqPpm) :
    (d.feed f).1.freqPpm =
      clamp (-d.cfg.maxFreqPpm) d.cfg.maxFreqPpm (d.freqPpm + d.accepted f) := by
  have htrim : d.trim f = none := if_neg fun h => h.2.1 hgain
  have haccepted : d.accepted f = (d.measured f).getD 0 := by
    unfold accepted measured
    split <;> rfl
  rw [feed_moves, moves, htrim, haccepted]
  cases d.measured f with
  | none => simp [clamp_of_abs_le hfreq]
  | some fm => rfl

end Discipline

namespace MultiController

open Discipline

variable [IsStrictOrderedRing R] {c : MultiController R} {std : StdFloat R}
  {cfg : DisciplineConfig R} {f : R}

/-- A measurement or a plan. -/
def Op.Steering : Op R → Prop
  | .observe _ _ _ => True
  | .steer _ _ _ => True
  | _ => False

/-- A plan commands the previous frequency and the measurement it accepted. -/
def Continues (c : MultiController R) : Op R → Prop
  | .steer est monoNowS leapPending =>
    let (c', decided) := c.steer est monoNowS leapPending
    let next := clamp (-c.discipline.cfg.maxFreqPpm) c.discipline.cfg.maxFreqPpm
      (c.freqCmdPpm + decided.acceptedFreq c.discipline)
    c'.freqCmdPpm = next ∧
      ∀ freq drain rate, decided.plan.command = .slew freq drain rate → freq = next
  | _ => True

theorem steer_freqCmdPpm (est : Estimate R) (monoNowS : R) (leapPending : Bool) :
    (c.steer est monoNowS leapPending).1.freqCmdPpm =
      (c.discipline.feed (est.feed leapPending)).1.freqPpm := rfl

theorem steer_slew {est : Estimate R} {monoNowS : R} {leapPending : Bool} {freq drain rate : R}
    (h : (c.steer est monoNowS leapPending).2.plan.command = .slew freq drain rate) :
    freq = (c.steer est monoNowS leapPending).1.freqCmdPpm := by
  have hcommand : (c.discipline.feed (est.feed leapPending)).2.command = .slew freq drain rate := h
  rw [steer_freqCmdPpm]
  rcases c.discipline.onEstimateWithLeap_cases est.offsetS est.freqPpm est.sdS leapPending with
    hout | hout | hout
  · exact nomatch hout.command.symm.trans hcommand
  · have hsame := hout.command.symm.trans hcommand
    cases hsame
    exact hout.freqPpm.symm
  · have hsame := hout.command.symm.trans hcommand
    cases hsame
    rfl

/-- A plan uses the frequency its estimate gets measured. -/
theorem steer_usesFrequency (est : Estimate R) (monoNowS : R) (leapPending : Bool) :
    (c.steer est monoNowS leapPending).2.usesFrequency c.discipline =
      (c.discipline.measured (est.feed leapPending)).isSome := by
  have hout := feed_outcome c.discipline (est.feed leapPending)
  unfold Discipline.measured
  cases hreaches : c.discipline.counted.reachesFreq (est.feed leapPending) with
  | true =>
    have hplan := feed_of_reachesFreq hreaches
    have hslew : (c.steer est monoNowS leapPending).2.plan.command =
        .slew _ est.offsetS _ := congrArg (fun out => out.2.command) hplan
    have haccepted : (c.steer est monoNowS leapPending).2.verdict = .accepted :=
      congrArg (fun out => out.2.verdict) hplan
    rw [ControllerStep.usesFrequency_slew _ hslew haccepted]
    show (est.freqPpm.isSome && _) = (if _ then est.freqPpm else none).isSome
    by_cases hhauling : freqTrustSlewShare < c.discipline.lastDrainShare
    · simp [hhauling]
    · simp [hhauling]
  | false =>
    have hnot : (c.steer est monoNowS leapPending).2.usesFrequency c.discipline = false := by
      generalize hgen : c.discipline.feed (est.feed leapPending) = out at hout
      cases hout with
      | leap => exact ControllerStep.usesFrequency_step _ (congrArg (fun out => out.2.command) hgen)
      | step => exact ControllerStep.usesFrequency_step _ (congrArg (fun out => out.2.command) hgen)
      | refuse =>
        refine ControllerStep.usesFrequency_refused _ ?_
        rw [show (c.steer est monoNowS leapPending).2.verdict = _ from
          congrArg (fun out => out.2.verdict) hgen]
        simp only [refuse, emit]
        split <;> simp
      | slew hslew => exact absurd hslew (by simp [hreaches])
    simp [hnot]

/-- What a plan accepts is what its estimate gets accepted. -/
theorem steer_acceptedFreq (est : Estimate R) (monoNowS : R) (leapPending : Bool) :
    (c.steer est monoNowS leapPending).2.acceptedFreq c.discipline =
      c.discipline.accepted (est.feed leapPending) := by
  unfold ControllerStep.acceptedFreq
  rw [steer_usesFrequency]
  unfold Discipline.accepted Discipline.measured
  split
  · cases hfm : (est.feed leapPending).freqPpmMeas with
    | none => rfl
    | some fm =>
      show est.freqPpm.getD 0 = fm
      rw [show est.freqPpm = some fm from hfm, Option.getD_some]
  · rfl

/-- A plan goes on from the controller's copy exactly where the discipline's comes to the same. -/
theorem continues_steer_iff (hgain : c.discipline.cfg.freqIntegralGain = 0)
    (hfreq : |c.discipline.freqPpm| ≤ c.discipline.cfg.maxFreqPpm) (est : Estimate R) (monoNowS : R)
    (leapPending : Bool) :
    c.Continues (.steer est monoNowS leapPending) ↔
      clamp (-c.discipline.cfg.maxFreqPpm) c.discipline.cfg.maxFreqPpm
          (c.discipline.freqPpm + c.discipline.accepted (est.feed leapPending)) =
        clamp (-c.discipline.cfg.maxFreqPpm) c.discipline.cfg.maxFreqPpm
          (c.freqCmdPpm + c.discipline.accepted (est.feed leapPending)) := by
  have hnext := (steer_freqCmdPpm est monoNowS leapPending).trans
    (Discipline.feed_freqPpm_eq hgain hfreq)
  unfold Continues
  dsimp only
  rw [steer_acceptedFreq, hnext]
  constructor
  · exact fun h => h.1
  · intro h
    refine ⟨h, ?_⟩
    intro freq drain rate hcommand
    rw [steer_slew hcommand, hnext, h]

/-- Between plans the copies of the frequency stay as they are. -/
theorem observe_keeps (std : StdFloat R) (index : Nat) (monoNowS : R) (sample : Sample R) :
    (step std c (.observe index monoNowS sample)).freqCmdPpm = c.freqCmdPpm ∧
      (step std c (.observe index monoNowS sample)).discipline = c.discipline :=
  ⟨observe_freqCmdPpm, observe_discipline⟩

/-- Both copies of the frequency are one number, within the ceiling. -/
structure InStep (cfg : DisciplineConfig R) (c : MultiController R) : Prop where
  config : c.discipline.cfg = cfg
  same : c.freqCmdPpm = c.discipline.freqPpm
  freq : |c.discipline.freqPpm| ≤ cfg.maxFreqPpm

/-- Any plan leaves the two copies in step. -/
theorem inStep_steer (std : StdFloat R) (hmax : 0 ≤ cfg.maxFreqPpm)
    (hgain : cfg.freqIntegralGain = 0) (hcfg : c.discipline.cfg = cfg)
    (hfreq : |c.discipline.freqPpm| ≤ cfg.maxFreqPpm) (est : Estimate R) (monoNowS : R)
    (leapPending : Bool) : InStep cfg (step std c (.steer est monoNowS leapPending)) where
  config := by
    show (c.discipline.feed (est.feed leapPending)).1.cfg = cfg
    rw [feed_cfg, hcfg]
  same := rfl
  freq := by
    show |(c.discipline.feed (est.feed leapPending)).1.freqPpm| ≤ _
    rw [← hcfg] at hmax hgain hfreq ⊢
    rw [Discipline.feed_freqPpm_eq hgain hfreq]
    exact abs_clamp_le hmax _

/-- In step, every plan goes on from the previous frequency. -/
theorem continues_of_inStep (hmax : 0 ≤ cfg.maxFreqPpm) (hgain : cfg.freqIntegralGain = 0)
    (ops : List (Op R)) (hops : ∀ op ∈ ops, op.Steering) (h : InStep cfg c) :
    Infra.Run.Along (step std) Continues c ops := by
  induction ops generalizing c with
  | nil => exact trivial
  | cons op ops ih =>
    have hrest := fun op hop => hops op (List.mem_cons_of_mem _ hop)
    cases op with
    | observe index monoNowS sample =>
      obtain ⟨hcmd, hdisc⟩ := observe_keeps (c := c) std index monoNowS sample
      exact ⟨trivial, ih hrest ⟨hdisc ▸ h.config, by rw [hcmd, hdisc, h.same], hdisc ▸ h.freq⟩⟩
    | steer est monoNowS leapPending =>
      refine ⟨?_, ih hrest (inStep_steer std hmax hgain h.config h.freq est monoNowS leapPending)⟩
      rw [continues_steer_iff (h.config ▸ hgain) (h.config ▸ h.freq), h.same]
    | pollDrain monoNowS => exact (hops _ List.mem_cons_self).elim
    | confirmLastPlan => exact (hops _ List.mem_cons_self).elim
    | revertLastPlan => exact (hops _ List.mem_cons_self).elim

/-- The first plan of a run comes to the same from `f` and from nothing. -/
def FirstPlanAgrees (cfg : DisciplineConfig R) (f : R) : List (Op R) → Prop
  | [] => True
  | .steer est _ leapPending :: _ =>
    clamp (-cfg.maxFreqPpm) cfg.maxFreqPpm
        ((Discipline.new cfg).accepted (est.feed leapPending)) =
      clamp (-cfg.maxFreqPpm) cfg.maxFreqPpm
        (f + (Discipline.new cfg).accepted (est.feed leapPending))
  | _ :: ops => FirstPlanAgrees cfg f ops

/-- **The frequency goes on from the preloaded one exactly where the first plan comes to the
same without it.** -/
theorem preloaded_run_iff (std : StdFloat R) (cfg : DisciplineConfig R) (sources : Nat) (f : R)
    (hf : |f| ≤ cfg.maxFreqPpm) (hgain : cfg.freqIntegralGain = 0) (ops : List (Op R))
    (hops : ∀ op ∈ ops, op.Steering) :
    Infra.Run.Along (step std) Continues ((new cfg sources).preloadFrequency f) ops ↔
      FirstPlanAgrees cfg f ops := by
  have hmax : 0 ≤ cfg.maxFreqPpm := (abs_nonneg f).trans hf
  have hfresh : ∀ c : MultiController R, c.freqCmdPpm = f → c.discipline = Discipline.new cfg →
      (Infra.Run.Along (step std) Continues c ops ↔ FirstPlanAgrees cfg f ops) := by
    induction ops with
    | nil => exact fun _ _ _ => Iff.rfl
    | cons op ops ih =>
      intro c hcmd hdisc
      have hrest := fun op hop => hops op (List.mem_cons_of_mem _ hop)
      cases op with
      | observe index monoNowS sample =>
        obtain ⟨hcmd', hdisc'⟩ := observe_keeps (c := c) std index monoNowS sample
        refine (and_iff_right trivial).trans ?_
        exact ih hrest _ (hcmd'.trans hcmd) (hdisc'.trans hdisc)
      | steer est monoNowS leapPending =>
        -- after the first plan the copies are in step, whatever it commanded
        have hcfg : c.discipline.cfg = cfg := congrArg Discipline.cfg hdisc
        have hzero : c.discipline.freqPpm = 0 := congrArg Discipline.freqPpm hdisc
        have hfreq : |c.discipline.freqPpm| ≤ cfg.maxFreqPpm := by
          rw [hzero, abs_zero]
          exact hmax
        have hafter := inStep_steer std hmax hgain hcfg hfreq est monoNowS leapPending
        refine (and_iff_left (continues_of_inStep hmax hgain ops hrest hafter)).trans ?_
        rw [continues_steer_iff (hcfg ▸ hgain) (hcfg ▸ hfreq), hzero, hcfg, hcmd, hdisc, zero_add]
        rfl
      | pollDrain monoNowS => exact (hops _ List.mem_cons_self).elim
      | confirmLastPlan => exact (hops _ List.mem_cons_self).elim
      | revertLastPlan => exact (hops _ List.mem_cons_self).elim
  exact hfresh _ rfl rfl

/-- One sample, and the plan made of it: no frequency has been measured yet. -/
def measureOnce : List (Op ℚ) :=
  [.observe 0 0 ⟨0, 1 / 1000, 1 / 100, 0⟩, .steer ⟨1 / 1000, none, 1 / 200, 1⟩ 0 false]

/-- The first plan drops what was preloaded. -/
theorem preloaded_run_drops :
    ¬∀ (std : StdFloat ℚ) (cfg : DisciplineConfig ℚ) (sources : Nat) (f : ℚ),
      |f| ≤ cfg.maxFreqPpm → cfg.freqIntegralGain = 0 → ∀ ops : List (Op ℚ),
        (∀ op ∈ ops, op.Steering) →
          Infra.Run.Along (step std) Continues ((new cfg sources).preloadFrequency f) ops := by
  intro h
  have hrun := h ⟨id, id, fun _ _ => none⟩ .default 1 (-25 / 2) (by decide +kernel)
    (by decide +kernel) measureOnce (by simp [measureOnce, Op.Steering])
  exact absurd hrun.2.1.1 (by decide +kernel)

/-- A first measurement beyond the ceiling hides the loss. -/
theorem preloaded_run_saturated :
    Infra.Run.Along (step ⟨id, id, fun _ _ => none⟩) Continues
      ((new (DisciplineConfig.default (R := ℚ)) 1).preloadFrequency 400)
      [.steer ⟨1 / 1000, some 600, 1 / 200, 8⟩ 0 false] := by
  refine (preloaded_run_iff ⟨id, id, fun _ _ => none⟩ .default 1 400 (by decide +kernel)
    (by decide +kernel) _
    (by simp [Op.Steering])).mpr ?_
  show (_ : ℚ) = _
  decide +kernel

end MultiController

end RustyTime
