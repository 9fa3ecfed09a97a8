import RustyTime.Properties.Ceiling

/-!
# The selection after a step

A step shifts every register of the controller. The offsets the selection reads are copies, kept
by the loop, and a copy is written only when its source answers.

* `quiet_run_readings` — until a source answers, the selection would read the same
* `step_shifts_selection_iff` — so a step is missed by every other source with an estimate
-/

namespace RustyTime

set_option linter.unusedSectionVars false

variable {R : Type} [Field R] [LinearOrder R] [FloorRing R]

namespace SyncLoop

variable {opts : SyncOptions R} {std : StdFloat R} {nominalTickUs : Int}

/-- An event publishes a step, of what the selection heard, and the driver takes it. -/
def StepsBy (opts : SyncOptions R) (std : StdFloat R) (nominalTickUs : Int) (s : SyncLoop R)
    (ev : SyncEvent R) (chosen : Heard R) (addSeconds : R) : Prop :=
  s.hears std ev = some chosen ∧
    ∃ d, (s.step opts std nominalTickUs ev).2 = some (.published d) ∧
      d.command = .step addSeconds ∧ d.answer = some true

/-- No event of a run calls the selection. -/
def Quiet (opts : SyncOptions R) (std : StdFloat R) (nominalTickUs : Int) (s : SyncLoop R)
    (evs : List (SyncEvent R)) : Prop :=
  Infra.Run.Along (fun s ev => (step opts std nominalTickUs s ev).1)
    (fun s ev => s.hears std ev = none) s evs

/-- Every source with an estimate, but the one heard, enters the selection with its earlier
offset minus `addSeconds`. -/
def Shifted (addSeconds : R) (before : List (Source R)) (h : Heard R) : Prop :=
  ∀ j, j ≠ h.index → ∀ source ∈ before[j]?, ∀ source' ∈ h.sources[j]?,
    source'.hasEstimate = true → source'.lastOffsetS = source.lastOffsetS - addSeconds

/-- An event that hears nothing leaves what the selection reads. -/
theorem quiet_step_readings {s : SyncLoop R} {ev : SyncEvent R} (hquiet : s.hears std ev = none) :
    (s.step opts std nominalTickUs ev).1.sources.map Source.reading =
      s.sources.map Source.reading := by
  unfold hears at hquiet
  unfold step
  split
  · rfl
  · next hexited =>
    rw [if_neg hexited] at hquiet
    cases ev with
    | head checkedS monoS ok =>
      dsimp only
      rw [((expire_sameInputs _ _).trans (retire_sameInputs _ _ _)).sources]
    | poll index p =>
      obtain ⟨sources, heq, hsame⟩ := poll_of_unheard opts nominalTickUs hquiet
      dsimp only
      rw [heq]
      exact hsame

/-- Until a source answers, the selection would read the same. -/
theorem quiet_run_readings {evs : List (SyncEvent R)} {s : SyncLoop R}
    (hquiet : Quiet opts std nominalTickUs s evs) :
    (s.run opts std nominalTickUs evs).sources.map Source.reading =
      s.sources.map Source.reading := by
  induction evs generalizing s with
  | nil => rfl
  | cons ev evs ih =>
    obtain ⟨hev, hrest⟩ := hquiet
    exact (ih hrest).trans (quiet_step_readings hev)

/-- Whatever follows from a selection, the next one would read the same. -/
theorem choose_readings {s : SyncLoop R} {index : Nat} {source : Source R} {est : Estimate R}
    {monoS : R} {p : Poll R} (hsource : s.sources[index]? = some source) :
    (s.choose opts nominalTickUs index source est monoS p).1.sources.map Source.reading =
      s.sources.map Source.reading := by
  unfold choose
  dsimp only
  split
  · rw [(execute_sameInputs _ _ _ _ _).sources]
    exact map_set_of_same hsource rfl
  · rw [(holdIfNoMajority_sameInputs _ _ _).sources]
    exact map_set_of_same hsource rfl

/-- What an event hears stays what the selection would read. -/
theorem heard_readings {s : SyncLoop R} {ev : SyncEvent R} {h : Heard R}
    (hhears : s.hears std ev = some h) :
    (s.step opts std nominalTickUs ev).1.sources.map Source.reading =
      h.sources.map Source.reading := by
  unfold hears at hhears
  unfold step
  split at hhears
  · exact nomatch hhears
  · next hexited =>
    rw [if_neg hexited]
    cases ev with
    | head checkedS monoS ok => exact nomatch hhears
    | poll index p =>
      have hsource := (heard_cases hhears).2.2.1
      dsimp only
      rw [poll_of_heard opts nominalTickUs hhears]
      exact choose_readings hsource

/-- A source has the same reading at its index. -/
theorem exists_same_reading {sources sources' : List (Source R)}
    (h : sources'.map Source.reading = sources.map Source.reading) {j : Nat} {source : Source R}
    (hsource : sources[j]? = some source) :
    ∃ source', sources'[j]? = some source' ∧ source'.lastOffsetS = source.lastOffsetS ∧
      source'.hasEstimate = source.hasEstimate := by
  have hj := congrArg (fun readings => readings[j]?) h
  simp only [List.getElem?_map, hsource, Option.map_some] at hj
  obtain ⟨source', hsource', hreading⟩ := Option.map_eq_some_iff.mp hj
  exact ⟨source', hsource', congrArg Prod.fst hreading, congrArg Prod.snd hreading⟩

/-- **After a step the selection reads offsets shifted by it only if the step is of nothing, or
no source but the one heard has an estimate.** -/
theorem step_shifts_selection_iff (opts : SyncOptions R) (std : StdFloat R) (nominalTickUs : Int)
    (s : SyncLoop R) (ev : SyncEvent R) (chosen : Heard R) (addSeconds : R)
    (hstep : StepsBy opts std nominalTickUs s ev chosen addSeconds) (evs : List (SyncEvent R))
    (hquiet : Quiet opts std nominalTickUs (s.step opts std nominalTickUs ev).1 evs)
    (ev' : SyncEvent R) (h : Heard R)
    (hhears : ((s.step opts std nominalTickUs ev).1.run opts std nominalTickUs evs).hears std ev' =
      some h) :
    Shifted addSeconds chosen.sources h ↔
      addSeconds = 0 ∨
        ∀ j, j ≠ h.index → ∀ source ∈ chosen.sources[j]?, source.hasEstimate = false := by
  have hsame := (quiet_run_readings hquiet).trans (heard_readings hstep.1)
  have hsources := (hears_cases hhears).1
  -- what is not heard is read as it was
  have hread : ∀ j, j ≠ h.index → ∀ source ∈ chosen.sources[j]?,
      ∃ source', h.sources[j]? = some source' ∧ source'.lastOffsetS = source.lastOffsetS ∧
        source'.hasEstimate = source.hasEstimate := by
    intro j hj source hsource
    rw [hsources, List.getElem?_set_ne (Ne.symm hj)]
    exact exists_same_reading hsame hsource
  constructor
  · intro hshifted
    by_contra hneither
    rw [not_or] at hneither
    obtain ⟨hmoved, hothers⟩ := hneither
    refine hothers fun j hj source hsource => ?_
    obtain ⟨source', hsource', hoffset, hestimate⟩ := hread j hj source hsource
    by_contra hhas
    rw [Bool.not_eq_false, ← hestimate] at hhas
    have hshift := hshifted j hj source hsource source' hsource' hhas
    rw [hoffset] at hshift
    exact hmoved (sub_eq_self.mp hshift.symm)
  · intro hcond j hj source hsource source' hsource' hhas
    obtain ⟨source'', hsource'', hoffset, hestimate⟩ := hread j hj source hsource
    obtain rfl : source'' = source' := Option.some.inj (hsource''.symm.trans hsource')
    rcases hcond with hzero | hothers
    · rw [hzero, sub_zero, hoffset]
    · rw [hestimate, hothers j hj source hsource] at hhas
      exact absurd hhas Bool.false_ne_true

/-- Both servers are five seconds ahead; the second answer makes the majority. -/
def agreeing : List (SyncEvent ℚ) :=
  [.poll 0 (.prompt 1 (some (.ahead 2 5 0 1000 1)) true),
    .poll 1 (.prompt 1 (some (.ahead 1 5 0 1000 1)) true)]

/-- The first server answers again, of the clock that was stepped. -/
def answeringAfter : SyncEvent ℚ := .poll 0 (.prompt 100 (some (.ahead 2 0 0 1000 100)) true)

/-- The second server's offset is still the one before the step. -/
theorem step_misses_second_source :
    ¬∀ (opts : SyncOptions ℚ) (std : StdFloat ℚ) (nominalTickUs : Int) (s : SyncLoop ℚ)
      (ev : SyncEvent ℚ) (chosen : Heard ℚ) (addSeconds : ℚ),
        StepsBy opts std nominalTickUs s ev chosen addSeconds → ∀ evs : List (SyncEvent ℚ),
          Quiet opts std nominalTickUs (s.step opts std nominalTickUs ev).1 evs →
            ∀ (ev' : SyncEvent ℚ) (h : Heard ℚ),
              ((s.step opts std nominalTickUs ev).1.run opts std nominalTickUs evs).hears std ev' =
                some h → Shifted addSeconds chosen.sources h := by
  intro hall
  let std : StdFloat ℚ := ⟨id, id, fun _ _ => none⟩
  let s := (start plain [.opened 0, .opened 0] 10000 0).run plain std 10000 (agreeing.take 1)
  let ev : SyncEvent ℚ := .poll 1 (.prompt 1 (some (.ahead 1 5 0 1000 1)) true)
  have hbefore : (s.hears std ev).map (fun h => h.sources[1]?.map Source.reading) =
      some (some (9999999 / 2000000, true)) := by
    decide +kernel
  have hdeed : (s.step plain std 10000 ev).2 =
      some (.published ⟨1, 1, .step (9999999 / 2000000), .accepted, some true, 1⟩) := by
    decide +kernel
  have hafter : ((s.step plain std 10000 ev).1.hears std answeringAfter).map
      (fun h => (h.index, h.sources[1]?.map Source.reading)) =
        some (0, some (9999999 / 2000000, true)) := by
    decide +kernel
  obtain ⟨chosen, hchosen, hreading⟩ := Option.map_eq_some_iff.mp hbefore
  obtain ⟨source, hsource, hsame⟩ := Option.map_eq_some_iff.mp hreading
  obtain ⟨h, hhears, hthen⟩ := Option.map_eq_some_iff.mp hafter
  obtain ⟨hindex, hreading'⟩ := Prod.mk.inj hthen
  obtain ⟨source', hsource', hsame'⟩ := Option.map_eq_some_iff.mp hreading'
  have hshift := hall plain std 10000 s ev chosen _ ⟨hchosen, _, hdeed, rfl, rfl⟩ [] trivial
    answeringAfter h hhears 1 (by rw [hindex]; decide) source hsource source' hsource'
    (congrArg Prod.snd hsame')
  have hoffset : source.lastOffsetS = 9999999 / 2000000 := congrArg Prod.fst hsame
  have hoffset' : source'.lastOffsetS = 9999999 / 2000000 := congrArg Prod.fst hsame'
  rw [hoffset, hoffset'] at hshift
  norm_num at hshift

/-- A server alone is stepped to, and answers again: there is no offset to miss. -/
def lone : SyncLoop ℚ :=
  (start plain [.opened 0] 10000 0).run plain ⟨id, id, fun _ _ => none⟩ 10000
    (slewThenStep.take 1)

theorem step_shifts_lone_source :
    ∃ chosen h : Heard ℚ,
      StepsBy plain ⟨id, id, fun _ _ => none⟩ 10000 lone
          (.poll 0 (.prompt 4 (some (.ahead 2 2 0 0 4)) true)) chosen 2 ∧
        (lone.run plain ⟨id, id, fun _ _ => none⟩ 10000 (slewThenStep.drop 1)).hears
          ⟨id, id, fun _ _ => none⟩ answeringAfter = some h ∧ Shifted 2 chosen.sources h := by
  let std : StdFloat ℚ := ⟨id, id, fun _ _ => none⟩
  let ev : SyncEvent ℚ := .poll 0 (.prompt 4 (some (.ahead 2 2 0 0 4)) true)
  have hbefore : (lone.hears std ev).map (fun h => h.sources.length) = some 1 := by
    decide +kernel
  have hdeed : (lone.step plain std 10000 ev).2 =
      some (.published ⟨0, 2, .step 2, .accepted, some true, 4⟩) := by
    decide +kernel
  have hafter : ((lone.step plain std 10000 ev).1.hears std answeringAfter).map
      (fun h => h.index) = some 0 := by
    decide +kernel
  obtain ⟨chosen, hchosen, hlength⟩ := Option.map_eq_some_iff.mp hbefore
  obtain ⟨h, hhears, hindex⟩ := Option.map_eq_some_iff.mp hafter
  have hstep : StepsBy plain std 10000 lone ev chosen 2 := ⟨hchosen, _, hdeed, rfl, rfl⟩
  refine ⟨chosen, h, hstep, hhears,
    (step_shifts_selection_iff plain std 10000 lone ev chosen 2 hstep [] trivial answeringAfter h
      hhears).mpr (.inr fun j hj source hsource => ?_)⟩
  have hlt := (List.getElem?_eq_some_iff.mp hsource).1
  rw [hindex] at hj
  omega

end SyncLoop

end RustyTime
