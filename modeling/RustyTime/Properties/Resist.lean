import RustyTime.Infra.Quorum
import RustyTime.Properties.StepSelection
import RustyTime.Properties.Majority
import RustyTime.Spec.Discipline

/-!
# What a minority of false sources can do

More than half of the sources are right about the offset `θ`, and sure of it to within `ρ`. The
others may say anything.

* `Chosen.hull_near` — what the sweeps choose lies within `2 * ρ` of `θ`
* `select_resists` — and how far off is what the selection keeps, prefers and combines
* `correction_resists` — so what the sync loop corrects the clock by is no further off
-/

namespace RustyTime.Select

open Infra

set_option linter.unusedSectionVars false

variable {R : Type} [Field R] [LinearOrder R] [IsStrictOrderedRing R]
  {sources : List (SourceEstimate R)} {need : Nat} {lo hi x θ ρ : R}

/-- How many sources are right. -/
def truthful (θ ρ : R) (sources : List (SourceEstimate R)) : Nat :=
  sources.countP fun s => decide (Truthful θ ρ s)

theorem Truthful.off_le {s : SourceEstimate R} (h : Truthful θ ρ s) :
    |s.offset - θ| ≤ radius s := by
  obtain ⟨hlo, hhi, -⟩ := h
  unfold lower upper at *
  rw [abs_le]
  constructor
  · linarith
  · linarith

/-- Two points a source vouches for are no further apart than it is wide. -/
theorem Truthful.near {s : SourceEstimate R} (h : Truthful θ ρ s) (hx : lower s ≤ x ∧ x ≤ upper s) :
    |x - θ| ≤ 2 * ρ := by
  obtain ⟨hlo, hhi, hnarrow⟩ := h
  unfold lower upper at *
  rw [abs_le]
  constructor
  · linarith
  · linarith

/-- The overlap at `θ` is of the sources that are right about it. -/
theorem truthful_reached (sources : List (SourceEstimate R)) (θ ρ : R) :
    θ ∈ reached sources (truthful θ ρ sources) := by
  refine ⟨[], sources, rfl, le_trans ?_ Sweep.countP_interior_le_overlap⟩
  refine List.countP_mono_left ?_
  intro s _ hs
  rw [decide_eq_true_eq] at hs ⊢
  exact ⟨hs.1, hs.2.1⟩

/-- Where an overlap is reached, that many sources vouch. -/
theorem need_le_depth (hx : x ∈ reached sources need) : need ≤ depth sources x := by
  obtain ⟨read, rest, rfl, hneed⟩ := hx
  exact hneed.trans Sweep.overlap_le_depth

namespace Chosen

variable (h : Chosen sources need lo hi)
include h

/-- Where a majority overlaps, one of the sources that are right vouches. -/
theorem near_of_reached (hmajority : sources.length < 2 * truthful θ ρ sources)
    (hx : x ∈ reached sources need) : |x - θ| ≤ 2 * ρ := by
  have hdepth := need_le_depth hx
  have hneed := h.majority
  -- two majorities of the sources have one in common
  obtain ⟨s, -, hs, hxs⟩ := Quorum.exists_of_quorums (l := sources)
    (p := fun s => decide (Truthful θ ρ s))
    (q := fun s => decide (lower s ≤ x ∧ x ≤ upper s)) (by
      unfold truthful at hmajority
      unfold depth Sweep.depth at hdepth
      omega)
  rw [decide_eq_true_eq] at hs hxs
  exact hs.near hxs

/-- **The hull lies near the truth.** -/
theorem hull_near (hmajority : sources.length < 2 * truthful θ ρ sources) :
    |lo - θ| ≤ 2 * ρ ∧ |hi - θ| ≤ 2 * ρ :=
  ⟨h.near_of_reached hmajority h.least.1, h.near_of_reached hmajority h.greatest.1⟩

/-- What meets the hull is off by no more than its own radius and the hull's distance. -/
theorem off_le (hmajority : sources.length < 2 * truthful θ ρ sources) {s : SourceEstimate R}
    (hs : lo ≤ upper s ∧ lower s ≤ hi) : |s.offset - θ| ≤ 2 * ρ + radius s := by
  obtain ⟨hlo, hhi⟩ := h.hull_near hmajority
  rw [abs_le] at hlo hhi ⊢
  unfold lower upper at hs
  constructor
  · linarith [hs.1, hlo.1]
  · linarith [hs.2, hhi.2]

/-- Of the sources that are right, all but what is missing from two majorities are kept. -/
theorem truthful_kept :
    need + truthful θ ρ sources ≤ sources.length +
      truthful θ ρ ((sources.filter (survives lo hi)).insertionSort Before) := by
  have hdepth := need_le_depth h.least.1
  -- those that vouch for the lower end of the hull and are right meet the hull
  have hboth := Quorum.le_countP_and sources (fun s => decide (lower s ≤ lo ∧ lo ≤ upper s))
    fun s => decide (Truthful θ ρ s)
  have hkept : (sources.countP fun s =>
      decide (lower s ≤ lo ∧ lo ≤ upper s) && decide (Truthful θ ρ s)) ≤
        truthful θ ρ ((sources.filter (survives lo hi)).insertionSort Before) := by
    unfold truthful
    rw [(List.perm_insertionSort Before _).countP_eq, List.countP_filter]
    refine List.countP_mono_left ?_
    intro s _ hs
    rw [Bool.and_eq_true, decide_eq_true_eq, decide_eq_true_eq] at hs
    rw [Bool.and_eq_true, decide_eq_true_eq, survives, Bool.and_eq_true, decide_eq_true_eq,
      decide_eq_true_eq]
    exact ⟨hs.2, hs.1.2, hs.1.1.trans h.lo_le_hi⟩
  unfold truthful at *
  unfold depth Sweep.depth at hdepth
  omega

end Chosen

/-- Something is kept, and what it is to the truth. -/
theorem survivors_resist (hmajority : sources.length < 2 * truthful θ ρ sources) :
    (∀ s ∈ survivors sources, |s.offset - θ| ≤ 2 * ρ + radius s) ∧
      2 * truthful θ ρ sources ≤ sources.length + truthful θ ρ (survivors sources) := by
  have hreached := truthful_reached sources θ ρ
  rcases survivors_cases sources with ⟨-, hnone⟩ | ⟨need, lo, hi, hchosen, hkept⟩
  -- an overlap of the right ones is at the truth, so something is chosen
  · rw [hnone _ hmajority] at hreached
    exact absurd hreached (Set.notMem_empty θ)
  · rw [hkept]
    refine ⟨fun s hs => hchosen.off_le hmajority (mem_filter_survives.mp hs).2, ?_⟩
    have hdeep := hchosen.le_need hreached
    have hcount := hchosen.truthful_kept (θ := θ) (ρ := ρ)
    omega

/-- What is preferred to a source that is right, and of no better stratum, is not far off. -/
theorem off_le_of_before {best s : SourceEstimate R}
    (hoff : |best.offset - θ| ≤ 2 * ρ + radius best) (hs : Truthful θ ρ s)
    (hbefore : Before best s) (hstratum : s.stratum ≤ best.stratum) :
    |best.offset - θ| ≤ 3 * ρ := by
  rcases hbefore with hless | ⟨-, hdistance⟩
  · omega
  · have hnarrow : radius best ≤ radius s := max_le_max_right _ hdistance
    linarith [hs.2.2]

/-- What is preferred among what is kept. -/
theorem preferred_resists (hmajority : sources.length < 2 * truthful θ ρ sources) :
    (∀ s ∈ survivors sources, |s.offset - θ| ≤ 2 * ρ + radius s) ∧
      ∃ best, (survivors sources).head? = some best ∧
        ((∀ s ∈ sources, ∀ t ∈ sources, Truthful θ ρ t → t.stratum ≤ s.stratum) →
          |best.offset - θ| ≤ 3 * ρ) := by
  obtain ⟨hoff, hcount⟩ := survivors_resist hmajority
  have hsub := (survivors_subperm sources).subset
  have hsome : 0 < truthful θ ρ (survivors sources) := by omega
  -- one that is right is kept, and the preferred one is it or comes before it
  obtain ⟨t, ht, htruthful⟩ := List.countP_pos_iff.mp hsome
  rw [decide_eq_true_eq] at htruthful
  obtain ⟨best, rest, hkept⟩ := List.exists_cons_of_ne_nil (List.ne_nil_of_mem ht)
  refine ⟨hoff, best, by rw [hkept]; rfl, fun hstrata => ?_⟩
  have hbest : best ∈ survivors sources := hkept ▸ List.mem_cons_self
  have hpairwise := survivors_pairwise sources
  rw [hkept] at ht hpairwise
  rcases List.mem_cons.mp ht with rfl | hrest
  · exact htruthful.off_le.trans (by linarith [radius_pos t, htruthful.2.2])
  · exact off_le_of_before (hoff best hbest) htruthful ((List.pairwise_cons.mp hpairwise).1 t hrest)
      (hstrata best (hsub hbest) t (hsub (hkept ▸ ht)) htruthful)

/-- **A minority cannot mislead a selection.** When a majority of the sources has `θ` strictly
inside, and is sure to within `ρ`, something is kept and combined, and whatever the others say:

* what is kept is off by no more than its own radius and `2 * ρ`;
* what is preferred is off by no more than `3 * ρ`, if none of the others has a better stratum;
* the combined offset is off by no more than `2 * ρ` if three in four sources are right, and by no
  more than `n * ρ` in any case.
-/
theorem select_resists (sources : List (SourceEstimate R)) (θ ρ : R)
    (hmajority : sources.length < 2 * truthful θ ρ sources) :
    ∃ kept offset, select sources = ⟨kept.map fun s => s.id, some offset⟩ ∧ kept ⊆ sources ∧
      (∀ s ∈ kept, |s.offset - θ| ≤ 2 * ρ + radius s) ∧
      (∃ best ∈ kept.head?, (∀ s ∈ sources, ∀ t ∈ sources, Truthful θ ρ t → t.stratum ≤ s.stratum) →
        |best.offset - θ| ≤ 3 * ρ) ∧
      ∀ m : ℕ, 0 < m → sources.length + m ≤ 2 * truthful θ ρ sources →
        |offset - θ| ≤ max 2 ((sources.length : R) / m) * ρ := by
  obtain ⟨hoff, best, hbest, hnear⟩ := preferred_resists hmajority
  have hcount := (survivors_resist hmajority).2
  have hne : survivors sources ≠ [] := by
    rintro hnil
    rw [hnil] at hbest
    cases hbest
  obtain ⟨offset, hcombined⟩ : ∃ offset, combined (survivors sources) = some offset := by
    obtain ⟨weights, -, -, -, hcombined⟩ := combined_convex hne
    exact ⟨_, hcombined⟩
  refine ⟨survivors sources, offset, ?_, (survivors_subperm sources).subset, hoff,
    ⟨best, hbest, hnear⟩, ?_⟩
  · rw [select_eq, if_neg (by simpa using hne), hcombined]
  · intro m hpos hm
    have hgood : ∀ s ∈ survivors sources, decide (Truthful θ ρ s) = true →
        |s.offset - θ| ≤ radius s ∧ radius s ≤ ρ :=
      fun s _ hs => ⟨(of_decide_eq_true hs).off_le, (of_decide_eq_true hs).2.2⟩
    have hmean := Quorum.abs_mean_sub_le_of_quorum (fun s _ => radius_pos s) hoff hgood
      (survivors_subperm sources).length_le (by unfold truthful at *; omega) hpos
    rw [combined] at hcombined
    split at hcombined
    · rw [← Option.some.inj hcombined]
      exact hmean
    · cases hcombined

/-- Two sources that are right, and one that is far off, unsure, and of a better stratum. -/
def oneUnsure : List (SourceEstimate ℚ) := [⟨0, 50, 60, 1⟩, ⟨1, 1 / 2, 1, 2⟩, ⟨2, -1 / 4, 1, 2⟩]

theorem oneUnsure_resisted : ∃ (kept : List (SourceEstimate ℚ)) (offset : ℚ),
    select oneUnsure = ⟨kept.map fun s => s.id, some offset⟩ ∧ |offset| ≤ 3 := by
  have hmajority : oneUnsure.length < 2 * truthful 0 1 oneUnsure := by decide +kernel
  obtain ⟨kept, offset, hselect, -, -, -, hmean⟩ := select_resists oneUnsure 0 1 hmajority
  have hthree := hmean 1 Nat.one_pos (by decide +kernel)
  refine ⟨kept, offset, hselect, ?_⟩
  rw [sub_zero] at hthree
  exact hthree.trans (by decide +kernel)

end RustyTime.Select

/-! ## The clock -/

namespace RustyTime

open Select

set_option linter.unusedSectionVars false

/-- The seconds a command corrects the clock by, at once or over time. -/
def ClockCommand.correction {R : Type} : ClockCommand R → R
  | .step addSeconds => addSeconds
  | .slew _ drainOffset _ => drainOffset

section

variable {R : Type} [Field R] [LinearOrder R] {sources : List (Source R)}

/-- An estimate is of the source at its place. -/
theorem exists_source_of_mem_estimates {e : SourceEstimate R} (h : e ∈ estimates sources) :
    ∃ source, sources[e.id]? = some source ∧ e = source.estimate e.id := by
  obtain ⟨p, hp, rfl⟩ := List.mem_map.mp h
  have hmem := List.mem_of_mem_filter hp
  exact ⟨p.1, List.mem_zipIdx_iff_getElem?.mp hmem, rfl⟩

/-- The source that is selected has the estimate that is preferred. -/
theorem exists_of_selectedIndex {i : Nat} (h : selectedIndex sources = some i) :
    (select (estimates sources)).truechimers.head? = some i := by
  unfold selectedIndex at h
  dsimp only at h
  split at h
  · cases h
  · split at h
    · cases h
    · exact h

variable {d : Discipline R} {f : Feed R}

/-- What is accepted corrects the clock by the offset estimated. -/
theorem Discipline.correction_of_accepted (h : (d.feed f).2.verdict = .accepted) :
    (d.feed f).2.command.correction = f.offset := by
  have hout := feed_outcome d f
  generalize d.feed f = out at hout h ⊢
  cases hout with
  | refuse =>
    simp only [refuse, emit] at h
    split at h <;> cases h
  | leap => rfl
  | step => rfl
  | slew => rfl

/-- What is not accepted corrects nothing. -/
theorem Discipline.correction_of_refused (h : (d.feed f).2.verdict ≠ .accepted) :
    (d.feed f).2.command.correction = 0 := by
  have hout := feed_outcome d f
  generalize d.feed f = out at hout h ⊢
  cases hout with
  | refuse => rfl
  | leap => exact absurd rfl h
  | step => exact absurd rfl h
  | slew => exact absurd rfl h

end

namespace SyncLoop

variable {R : Type} [Field R] [LinearOrder R] [FloorRing R] {opts : SyncOptions R}
  {std : StdFloat R} {nominalTickUs : Int}

/-- What is heard is recorded as the offset estimated. -/
theorem hears_source {s : SyncLoop R} {ev : SyncEvent R} {h : Heard R}
    (hhears : s.hears std ev = some h) :
    h.sources[h.index]? = some h.source ∧ h.source.lastOffsetS = h.est.offsetS := by
  unfold hears at hhears
  split at hhears
  · exact nomatch hhears
  · cases ev with
    | head checkedS monoS ok => exact nomatch hhears
    | poll index p =>
      obtain ⟨hindex, -, hsource, -⟩ := heard_cases hhears
      refine ⟨hindex ▸ hsource, ?_⟩
      change s.heard std index p = some h at hhears
      unfold heard at hhears
      split at hhears
      · exact nomatch hhears
      · split at hhears
        · exact nomatch hhears
        · split at hhears
          · cases hhears
            rfl
          · exact nomatch hhears

/-- A plan that corrects the clock corrects it by an offset that is preferred. -/
theorem exists_preferred {s : SyncLoop R} {ev : SyncEvent R} {d : Decision R}
    (hpublished : (s.step opts std nominalTickUs ev).2 = some (.published d))
    (hcorrects : d.command.correction ≠ 0) :
    ∃ h, s.hears std ev = some h ∧ selectedIndex h.sources = some h.index ∧
      d.command.correction = h.source.lastOffsetS ∧ h.sources[h.index]? = some h.source := by
  obtain ⟨plan, hplan, hcommand⟩ := exists_plan_of_published hpublished
  obtain ⟨h, hhears, hsteer⟩ := Option.bind_eq_some_iff.mp hplan
  obtain ⟨hsource, hoffset⟩ := hears_source hhears
  split at hsteer
  · next hselected =>
    refine ⟨h, hhears, hselected, ?_, hsource⟩
    cases hsteer
    rw [← hcommand] at hcorrects ⊢
    rw [hoffset]
    let f : Feed R := ⟨h.est.offsetS, h.est.freqPpm, h.est.sdS, h.source.leapPending⟩
    have hfeed : (h.ctl.steer h.est h.monoS h.source.leapPending).2.plan =
        (h.ctl.discipline.feed f).2 := rfl
    rw [hfeed] at hcorrects ⊢
    by_cases haccepted : (h.ctl.discipline.feed f).2.verdict = .accepted
    · exact Discipline.correction_of_accepted haccepted
    · exact absurd (Discipline.correction_of_refused haccepted) hcorrects
  · exact nomatch hsteer

/-- **A minority cannot mislead the clock.** Whatever the loop corrects the clock by, when a
majority of the estimates it selects from is right about the offset `θ` to within `ρ`: it is off by
no more than the root distance of the source it follows and `2 * ρ`, and by no more than `3 * ρ` if
no source has a better stratum than those that are right. -/
theorem correction_resists [IsStrictOrderedRing R] (opts : SyncOptions R) (std : StdFloat R)
    (nominalTickUs : Int) (s : SyncLoop R) (ev : SyncEvent R) (d : Decision R) (θ ρ : R)
    (hpublished : (s.step opts std nominalTickUs ev).2 = some (.published d))
    (hcorrects : d.command.correction ≠ 0)
    (hmajority : ∀ h ∈ s.hears std ev,
      (estimates h.sources).length < 2 * truthful θ ρ (estimates h.sources)) :
    ∃ h, s.hears std ev = some h ∧
      |d.command.correction - θ| ≤ 2 * ρ + max h.source.lastRootDistanceS 1e-9 ∧
      ((∀ e ∈ estimates h.sources, ∀ e' ∈ estimates h.sources, Truthful θ ρ e' →
          e'.stratum ≤ e.stratum) → |d.command.correction - θ| ≤ 3 * ρ) := by
  obtain ⟨h, hhears, hselected, hcorrection, hsource⟩ := exists_preferred hpublished hcorrects
  obtain ⟨hoff, best, hbest, hnear⟩ := preferred_resists (hmajority h hhears)
  have hhead := exists_of_selectedIndex hselected
  rw [truechimers_eq, List.head?_map, hbest, Option.map_some] at hhead
  have hid := Option.some.inj hhead
  have hmem := (survivors_subperm _).subset (List.mem_of_head? hbest)
  obtain ⟨source, hsource', hestimate⟩ := exists_source_of_mem_estimates hmem
  rw [hid] at hsource' hestimate
  obtain rfl := Option.some.inj (hsource.symm.trans hsource')
  have hoffset : best.offset = h.source.lastOffsetS := by rw [hestimate]; rfl
  have hradius : radius best = max h.source.lastRootDistanceS 1e-9 := by
    rw [hestimate]
    exact max_eq_left (le_max_right _ _)
  refine ⟨h, hhears, ?_⟩
  rw [hcorrection, ← hoffset, ← hradius]
  exact ⟨hoff best (List.mem_of_head? hbest), hnear⟩

/-- A server a hundred seconds off answers first, then two that are five seconds ahead. -/
def outvoted : List (SyncEvent ℚ) :=
  [.poll 0 (.prompt 1 (some (.ahead 1 100 0 1000 1)) true),
    .poll 1 (.prompt 1 (some (.ahead 2 5 0 1000 1)) true)]

theorem correction_resists_outvoted : ∃ (d : Decision ℚ) (h : Heard ℚ),
    (((start plain [.opened 0, .opened 0, .opened 0] 10000 0).run plain ⟨id, id, fun _ _ => none⟩
      10000 outvoted).step plain ⟨id, id, fun _ _ => none⟩ 10000
        (.poll 2 (.prompt 1 (some (.ahead 1 5 0 1000 1)) true))).2 = some (.published d) ∧
      |d.command.correction - 9999999 / 2000000| ≤
        2 * (1 / 1000) + max h.source.lastRootDistanceS 1e-9 := by
  let std : StdFloat ℚ := ⟨id, id, fun _ _ => none⟩
  let s := (start plain [.opened 0, .opened 0, .opened 0] 10000 0).run plain std 10000 outvoted
  let ev : SyncEvent ℚ := .poll 2 (.prompt 1 (some (.ahead 1 5 0 1000 1)) true)
  have hdeed : (s.step plain std 10000 ev).2 =
      some (.published ⟨2, 1, .step (9999999 / 2000000), .accepted, some true, 1⟩) := by
    decide +kernel
  have hright : (s.hears std ev).all (fun h => decide ((estimates h.sources).length <
      2 * truthful (9999999 / 2000000) (1 / 1000) (estimates h.sources))) = true := by
    decide +kernel
  obtain ⟨h, -, hoff, -⟩ := correction_resists plain std 10000 s ev _ (9999999 / 2000000)
    (1 / 1000) hdeed (by decide +kernel) fun h hh => by
      rw [Option.mem_def.mp hh] at hright
      exact of_decide_eq_true hright
  exact ⟨_, h, hdeed, hoff⟩

end SyncLoop

end RustyTime
