import RustyTime.Infra.Run
import RustyTime.Properties.ClientRefusal
import RustyTime.Properties.SyncClock
import RustyTime.Properties.SyncViews

/-!
# The platform's slew ceiling

The loop clamps a copy of its options to the platform's ceiling and builds the controller from
the options themselves.

* `step_cfg` — no event changes the configuration of the controller
* `plans_within_ceiling` — plans stay under a ceiling that the options respect already
-/

namespace RustyTime

set_option linter.unusedSectionVars false

variable {R : Type} [Field R] [LinearOrder R]

/-- No drain is above the configured ceiling. -/
theorem Discipline.drainRatePpm_le (d : Discipline R) (offset noise : R) :
    d.drainRatePpm offset noise ≤ d.cfg.maxSlewPpm := by
  unfold drainRatePpm
  split
  · exact le_rfl
  · exact min_le_right _ _

namespace MultiController

/-- A plan drains at no more than the configured ceiling, or not at all. -/
theorem steer_rate {c : MultiController R} {est : Estimate R} {monoS : R} {leapPending : Bool}
    {freq drain rate : R}
    (h : (c.steer est monoS leapPending).2.plan.command = .slew freq drain rate) :
    rate ≤ c.discipline.cfg.maxSlewPpm ∨ rate = 0 := by
  have hcommand : (c.discipline.onEstimateWithLeap est.offsetS est.freqPpm est.sdS
      leapPending).2.command = .slew freq drain rate := h
  rcases c.discipline.onEstimateWithLeap_cases est.offsetS est.freqPpm est.sdS leapPending with
    hout | hout | hout
  · exact nomatch hout.command.symm.trans hcommand
  · cases hout.command.symm.trans hcommand
    exact .inr rfl
  · cases hout.command.symm.trans hcommand
    refine .inl ((Discipline.drainRatePpm_le _ _ _).trans_eq ?_)
    rw [Discipline.prepareSlew_cfg]

end MultiController

namespace SyncLoop

variable [FloorRing R] {opts : SyncOptions R} {std : StdFloat R} {nominalTickUs : Int}

/-! ## The configuration stays -/

/-- What the driver's commands and the reports leave alone: the sources, and the controller's
discipline. -/
structure SameInputs (s s' : SyncLoop R) : Prop where
  sources : s'.sources = s.sources
  discipline : s'.ctl.discipline = s.ctl.discipline

theorem SameInputs.trans {s s' s'' : SyncLoop R} (h : SameInputs s s') (h' : SameInputs s' s'') :
    SameInputs s s'' :=
  ⟨h'.sources.trans h.sources, h'.discipline.trans h.discipline⟩

theorem expire_sameInputs (s : SyncLoop R) (checkedS : R) :
    SameInputs s (s.expire opts checkedS) := by
  obtain ⟨_, _, heq⟩ := expire_eq opts s checkedS
  rw [heq]
  exact ⟨rfl, rfl⟩

theorem retire_sameInputs (s : SyncLoop R) (monoS : R) (ok : Bool) :
    SameInputs s (s.retire opts nominalTickUs monoS ok).1 := by
  have hpoll := (MultiController.pollDrain_command (c := s.ctl) monoS).1
  obtain ⟨_, _, _, deed, heq, -⟩ := retire_eq opts nominalTickUs s monoS ok
  rw [heq]
  refine ⟨rfl, ?_⟩
  dsimp only
  split
  · exact hpoll
  · rfl

theorem holdIfNoMajority_sameInputs (s : SyncLoop R) (selected : Option Nat) (ok : Bool) :
    SameInputs s (s.holdIfNoMajority opts nominalTickUs selected ok).1 := by
  obtain ⟨_, _, deed, heq, -⟩ := holdIfNoMajority_eq opts nominalTickUs s selected ok
  rw [heq]
  exact ⟨rfl, rfl⟩

theorem commit_sameInputs (s : SyncLoop R) (command : ClockCommand R) (ok : Bool) :
    SameInputs s (s.commit opts nominalTickUs command ok).1 := by
  unfold commit
  split
  · exact ⟨rfl, rfl⟩
  · split
    · exact ⟨rfl, rfl⟩
    · exact ⟨rfl, MultiController.revertLastPlan_discipline⟩

theorem publish_sameInputs (s : SyncLoop R) (source : Source R) (decided : ControllerStep R)
    (answer : Option Bool) (p : Poll R) : SameInputs s (s.publish source decided answer p) := by
  obtain ⟨_, _, _, heq⟩ := publish_eq s source decided answer p
  rw [heq]
  exact ⟨rfl, rfl⟩

theorem execute_sameInputs (s : SyncLoop R) (index : Nat) (source : Source R)
    (decided : ControllerStep R) (p : Poll R) :
    SameInputs s (s.execute opts nominalTickUs index source decided p).1 := by
  have hfree : SameInputs s { s with holding := false } := ⟨rfl, rfl⟩
  have hcommit : SameInputs s ({ s with holding := false }.commit opts nominalTickUs
      decided.plan.command p.ok).1 := hfree.trans (commit_sameInputs _ _ _)
  unfold execute
  split
  · exact ⟨rfl, rfl⟩
  · dsimp only
    split
    · exact hcommit
    · exact hcommit.trans (publish_sameInputs _ _ _ _ _)

theorem choose_cfg (s : SyncLoop R) (index : Nat) (source : Source R) (est : Estimate R)
    (monoS : R) (p : Poll R) :
    (s.choose opts nominalTickUs index source est monoS p).1.ctl.discipline.cfg =
      s.ctl.discipline.cfg := by
  unfold choose
  dsimp only
  split
  · rw [(execute_sameInputs _ _ _ _ _).discipline]
    exact MultiController.steer_cfg est monoS source.leapPending
  · rw [(holdIfNoMajority_sameInputs _ _ _).discipline]

/-- What is heard is of the source polled, and of the controller only its registers change. -/
theorem heard_cases {s : SyncLoop R} {index : Nat} {p : Poll R} {h : Heard R}
    (hheard : s.heard std index p = some h) :
    h.index = index ∧ h.sources = s.sources.set index h.source ∧
      h.sources[index]? = some h.source ∧ h.ctl.discipline = s.ctl.discipline := by
  unfold heard at hheard
  split at hheard
  · exact nomatch hheard
  · next hsource =>
    split at hheard
    · exact nomatch hheard
    · split at hheard
      · cases hheard
        have hindex := (List.getElem?_eq_some_iff.mp hsource).1
        refine ⟨rfl, rfl, ?_, MultiController.observe_discipline⟩
        simp [hindex]
      · exact nomatch hheard

/-- What an event hears, it hears in a poll. -/
theorem hears_cases {s : SyncLoop R} {ev : SyncEvent R} {h : Heard R}
    (hhears : s.hears std ev = some h) :
    h.sources = s.sources.set h.index h.source ∧ h.ctl.discipline = s.ctl.discipline := by
  unfold hears at hhears
  split at hhears
  · exact nomatch hhears
  · cases ev with
    | head checkedS monoS ok => exact nomatch hhears
    | poll index p =>
      obtain ⟨rfl, hsources, -, hdisc⟩ := heard_cases hhears
      exact ⟨hsources, hdisc⟩

/-- **No event changes the configuration of the controller.** -/
theorem step_cfg (s : SyncLoop R) (ev : SyncEvent R) :
    (s.step opts std nominalTickUs ev).1.ctl.discipline.cfg = s.ctl.discipline.cfg := by
  unfold step
  split
  · rfl
  · cases ev with
    | head checkedS monoS ok =>
      dsimp only
      rw [((expire_sameInputs _ _).trans (retire_sameInputs _ _ _)).discipline]
    | poll index p =>
      dsimp only
      cases hheard : s.heard std index p with
      | none =>
        obtain ⟨sources, heq, -⟩ := poll_of_unheard opts nominalTickUs hheard
        rw [heq]
      | some h =>
        rw [poll_of_heard opts nominalTickUs hheard, choose_cfg]
        exact congrArg Discipline.cfg (heard_cases hheard).2.2.2

/-! ## Plans under the ceiling -/

/-- Every slew an event plans is one the platform can deliver. -/
def Delivers (std : StdFloat R) (ceilingPpm : R) (s : SyncLoop R) (ev : SyncEvent R) : Prop :=
  ∀ plan ∈ s.plans std ev, ∀ freq drain rate, plan.command = .slew freq drain rate →
    rate ≤ ceilingPpm

/-- A plan drains at no more than the controller's ceiling, or not at all. -/
theorem plans_rate {s : SyncLoop R} {ev : SyncEvent R} {plan : Plan R} {freq drain rate : R}
    (hplan : plan ∈ s.plans std ev) (hcommand : plan.command = .slew freq drain rate) :
    rate ≤ s.ctl.discipline.cfg.maxSlewPpm ∨ rate = 0 := by
  obtain ⟨h, hhears, hsteer⟩ := Option.bind_eq_some_iff.mp hplan
  have hdisc := (hears_cases hhears).2
  split at hsteer
  · cases hsteer
    rw [← hdisc]
    exact MultiController.steer_rate hcommand
  · exact nomatch hsteer

theorem execute_published {s : SyncLoop R} {index : Nat} {source : Source R}
    {decided : ControllerStep R} {p : Poll R} {d : Decision R}
    (h : (s.execute opts nominalTickUs index source decided p).2 = some (.published d)) :
    d.command = decided.plan.command := by
  unfold execute at h
  split at h
  · exact nomatch h
  · dsimp only at h
    split at h
    · exact nomatch h
    · cases h
      rfl

/-- What is published was planned. -/
theorem exists_plan_of_published {s : SyncLoop R} {ev : SyncEvent R} {d : Decision R}
    (h : (s.step opts std nominalTickUs ev).2 = some (.published d)) :
    ∃ plan ∈ s.plans std ev, plan.command = d.command := by
  have hnot : ∀ {deed : Option (Deed R)}, deed.bind Deed.decision = none →
      deed ≠ some (.published d) := by
    rintro deed hdeed rfl
    exact nomatch hdeed
  unfold step at h
  unfold plans hears
  split at h
  · exact nomatch h
  · next hexited =>
    rw [if_neg hexited]
    cases ev with
    | head checkedS monoS ok => exact absurd h (hnot (retire_views _ _ _).2)
    | poll index p =>
      dsimp only at h ⊢
      cases hheard : s.heard std index p with
      | none =>
        obtain ⟨sources, heq, -⟩ := poll_of_unheard opts nominalTickUs hheard
        rw [heq] at h
        exact nomatch h
      | some heard =>
        rw [poll_of_heard opts nominalTickUs hheard] at h
        unfold choose at h
        dsimp only at h
        split at h
        · next hselected =>
          have hindex : heard.index = index := (heard_cases hheard).1
          refine ⟨_, ?_, (execute_published h).symm⟩
          rw [Option.bind_some, if_pos (hindex ▸ hselected)]
          rfl
        · exact absurd h (hnot holdIfNoMajority_views.2)

/-- **The loop plans no slew above a ceiling that its options respect already.** -/
theorem plans_within_ceiling (opts : SyncOptions R) (std : StdFloat R) (nominalTickUs : Int)
    (sources : List (Source R)) (now ceilingPpm : R) (hceiling : 0 ≤ ceilingPpm)
    (hopts : opts.discipline.maxSlewPpm ≤ ceilingPpm) (evs : List (SyncEvent R)) :
    Infra.Run.Along (fun s ev => (step opts std nominalTickUs s ev).1) (Delivers std ceilingPpm)
      (start opts sources nominalTickUs now) evs := by
  refine Infra.Run.Along.of_inv (fun s => s.ctl.discipline.cfg.maxSlewPpm ≤ ceilingPpm) ?_ ?_
    hopts (Infra.Run.along_of_forall (fun _ _ => trivial) _ _)
  · intro s ev hs _
    rw [step_cfg]
    exact hs
  · intro s ev hs _ plan hplan freq drain rate hcommand
    rcases plans_rate hplan hcommand with hrate | hrate
    · exact hrate.trans hs
    · exact hrate.trans_le hceiling

/-- A platform that slews by 500 ppm at most, and an offset of half a second. -/
theorem plans_above_ceiling :
    ¬∀ (opts : SyncOptions ℚ) (std : StdFloat ℚ) (nominalTickUs : Int) (sources : List (Source ℚ))
      (now ceilingPpm : ℚ), 0 ≤ ceilingPpm → ∀ evs : List (SyncEvent ℚ),
        Infra.Run.Along (fun s ev => (step opts std nominalTickUs s ev).1)
          (Delivers std ceilingPpm) (start opts sources nominalTickUs now) evs := by
  intro h
  have hrun := (h plain ⟨id, id, fun _ _ => none⟩ 10000 [.opened 0] 0 500 (by decide)
    (slewThenStep.take 1)).1
  have hplan : ((start plain [.opened 0] 10000 0).plans ⟨id, id, fun _ _ => none⟩
      (.poll 0 (.prompt 1 (some (.ahead 2 0 500000000 1000 1)) true))).map
        (fun plan => plan.command) = some (.slew 0 (999999 / 2000000) 83333) := by
    decide +kernel
  obtain ⟨plan, hmem, hcommand⟩ := Option.map_eq_some_iff.mp hplan
  have hrate := hrun plan hmem _ _ _ hcommand
  norm_num at hrate

/-- The same options keep to a platform that slews by 100000 ppm. -/
theorem plans_within_ceiling_plain :
    Infra.Run.Along (fun s ev => (step plain ⟨id, id, fun _ _ => none⟩ 10000 s ev).1)
      (Delivers ⟨id, id, fun _ _ => none⟩ 100000) (start plain [.opened 0] 10000 0)
      slewThenStep :=
  plans_within_ceiling plain ⟨id, id, fun _ _ => none⟩ 10000 [.opened 0] 0 100000
    (by decide) (by decide +kernel) slewThenStep

end SyncLoop

end RustyTime
