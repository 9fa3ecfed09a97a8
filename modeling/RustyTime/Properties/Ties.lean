import RustyTime.Properties.Majority

/-!
# Selection and the order of the sources

Ends of one value are read in the order of the list, so where one interval ends and another
begins the scans may count both or only one of them.

* `survivors_perm` — where no such point decides, any order keeps the same sources
* `select_perm_iff` — and where one does, two orders keep different ones
-/

namespace RustyTime.Select

open Infra

set_option linter.unusedSectionVars false

variable {R : Type} [Field R] [LinearOrder R] [IsStrictOrderedRing R]
  {sources sources' : List (SourceEstimate R)} {need : Nat} {lo hi x y : R}

/-! ## What every order counts -/

theorem firm_perm (hp : sources'.Perm sources) : firm sources' x = firm sources x :=
  Sweep.firm_perm hp

theorem depth_perm (hp : sources'.Perm sources) : depth sources' x = depth sources x :=
  Sweep.depth_perm hp

/-- Every order counts the firm overlap. -/
theorem reached_of_firm (hp : sources'.Perm sources) (h : need ≤ firm sources x) :
    x ∈ reached sources' need := by
  rw [← firm_perm hp] at h
  rcases le_max_iff.mp h with h | h
  · exact ⟨sources', [], (List.append_nil sources').symm, h⟩
  · exact ⟨[], sources', rfl, h⟩

/-- No order counts more than there is. -/
theorem le_depth_of_reached (hp : sources'.Perm sources) (h : x ∈ reached sources' need) :
    need ≤ depth sources x := by
  rw [← depth_perm hp]
  obtain ⟨read, rest, rfl, h⟩ := h
  exact h.trans Sweep.overlap_le_depth

/-- An order that reads what ends at `x` first counts no more than the firm overlap. -/
theorem le_firm_of_reached (h : x ∈ reached sources need)
    (hends : sources.Pairwise fun s t => ¬(lower s = x ∧ upper t = x)) :
    need ≤ firm sources x := by
  obtain ⟨read, rest, rfl, h⟩ := h
  exact h.trans (Sweep.overlap_le_firm hends)

/-- More than the firm overlap is counted only where intervals touch. -/
theorem touches_of_reached (hp : sources'.Perm sources) (h : x ∈ reached sources' need)
    (hfirm : firm sources x < need) :
    (∃ s ∈ sources, upper s = x) ∧ ∃ t ∈ sources, lower t = x := by
  have hno : ¬sources'.Pairwise fun s t => ¬(lower s = x ∧ upper t = x) := by
    intro hends
    have := le_firm_of_reached h hends
    rw [firm_perm hp] at this
    omega
  constructor
  · by_contra hupper
    refine hno (List.pairwise_of_forall_mem_list ?_)
    intro s _ t ht hst
    exact hupper ⟨t, hp.subset ht, hst.2⟩
  · by_contra hlower
    refine hno (List.pairwise_of_forall_mem_list ?_)
    intro s hs t _ hst
    exact hlower ⟨s, hp.subset hs, hst.1⟩

/-! ## Where no touch decides -/

theorem firm_le_need (hp : sources'.Perm sources) (h : Chosen sources' need lo hi) (y : R) :
    firm sources y ≤ need :=
  h.le_need (reached_of_firm hp le_rfl)

/-- A point of the chosen overlap is of the firm one, or settled. -/
theorem firm_or_settled (hnone : ∀ x, ¬Decides sources x) (hp : sources'.Perm sources)
    (h : Chosen sources' need lo hi) (hx : x ∈ reached sources' need) :
    need ≤ firm sources x ∨ Settled sources x := by
  by_cases hfirm : need ≤ firm sources x
  · exact .inl hfirm
  · refine .inr ?_
    by_contra hsettled
    obtain ⟨hupper, hlower⟩ := touches_of_reached hp hx (not_le.mp hfirm)
    have hdepth := le_depth_of_reached hp hx
    have hmajority := h.majority
    rw [hp.length_eq] at hmajority
    exact hnone x ⟨hupper, hlower, by omega,
      fun y => (firm_le_need hp h y).trans hdepth, hsettled⟩

/-- The deepest firm overlap lies on both sides of the ends of a choice. -/
theorem firmest_around (hnone : ∀ x, ¬Decides sources x) (hp : sources'.Perm sources)
    (h : Chosen sources' need lo hi) (hx : x ∈ reached sources' need) :
    (∃ y, y ≤ x ∧ Firmest sources y) ∧ ∃ y, x ≤ y ∧ Firmest sources y := by
  rcases firm_or_settled hnone hp h hx with hfirm | hsettled
  · have hmajority := h.majority
    rw [hp.length_eq] at hmajority
    have hfirmest : Firmest sources x :=
      ⟨by omega, fun y => (firm_le_need hp h y).trans hfirm⟩
    exact ⟨⟨x, le_rfl, hfirmest⟩, ⟨x, le_rfl, hfirmest⟩⟩
  · exact ⟨hsettled.1, hsettled.2.1⟩

/-- **Any order keeps what meets the hull of the deepest firm overlap.** -/
theorem meetsFirmest_iff (hnone : ∀ x, ¬Decides sources x) (hp : sources'.Perm sources)
    (h : Chosen sources' need lo hi) {s : SourceEstimate R} (hs : s ∈ sources) :
    MeetsFirmest sources s ↔ lo ≤ upper s ∧ lower s ≤ hi := by
  constructor
  · rintro ⟨⟨x, hx, hfirmx⟩, ⟨y, hy, hfirmy⟩⟩
    by_cases hfirm : ∃ z, need ≤ firm sources z
    · -- the firm overlap is as deep as the chosen one
      obtain ⟨z, hz⟩ := hfirm
      have hlo := h.least.2 (reached_of_firm hp (hz.trans (hfirmx.2 z)))
      have hhi := h.greatest.2 (reached_of_firm hp (hz.trans (hfirmy.2 z)))
      exact ⟨hlo.trans hx, hy.trans hhi⟩
    · -- it is not: then both ends of the choice lie in all that meets it
      have hbelow : ∀ x ∈ reached sources' need, lower s ≤ x ∧ x ≤ upper s := by
        intro e he
        rcases firm_or_settled hnone hp h he with hfirm' | hsettled
        · exact absurd ⟨e, hfirm'⟩ hfirm
        · refine hsettled.2.2 ?_ s hs ⟨⟨x, hx, hfirmx⟩, ⟨y, hy, hfirmy⟩⟩
          intro z
          have hz : ¬need ≤ firm sources z := fun hz => hfirm ⟨z, hz⟩
          have := le_depth_of_reached hp he
          omega
      exact ⟨(hbelow lo h.least.1).2, (hbelow hi h.greatest.1).1⟩
  · rintro ⟨hlo, hhi⟩
    obtain ⟨x, hx, hfirmx⟩ := (firmest_around hnone hp h h.least.1).1
    obtain ⟨y, hy, hfirmy⟩ := (firmest_around hnone hp h h.greatest.1).2
    exact ⟨⟨x, hx.trans hlo, hfirmx⟩, ⟨y, hhi.trans hy, hfirmy⟩⟩

/-- If one order keeps something, so does any other. -/
theorem survivors_ne_nil_of_perm (hnone : ∀ x, ¬Decides sources x) (hp : sources'.Perm sources)
    (h : Chosen sources' need lo hi) {sources'' : List (SourceEstimate R)}
    (hp' : sources''.Perm sources) : survivors sources'' ≠ [] := by
  obtain ⟨y, -, hmajority, -⟩ := (firmest_around hnone hp h h.least.1).1
  have hlong : sources''.length < 2 * firm sources y := by
    rw [hp'.length_eq]
    exact hmajority
  exact survivors_ne_nil hlong (reached_of_firm hp' le_rfl)

/-- What is kept of any order is what meets the hull of its choice. -/
theorem mem_survivors_of_kept (hp : sources'.Perm sources)
    (hkept : survivors sources' = (sources'.filter (survives lo hi)).insertionSort Before)
    {s : SourceEstimate R} (hs : s ∈ sources) :
    s ∈ survivors sources' ↔ lo ≤ upper s ∧ lower s ≤ hi := by
  rw [hkept, mem_filter_survives]
  exact and_iff_right (hp.mem_iff.mpr hs)

/-- Where no touch decides, any order keeps the same sources. -/
theorem survivors_perm (hnone : ∀ x, ¬Decides sources x) (hp : sources'.Perm sources) :
    (survivors sources').Perm (survivors sources) := by
  rcases survivors_cases sources' with ⟨hnil', -⟩ | ⟨need', lo', hi', hchosen', hkept'⟩
  · rcases survivors_cases sources with ⟨hnil, -⟩ | ⟨need, lo, hi, hchosen, -⟩
    · rw [hnil, hnil']
    · exact absurd hnil' (survivors_ne_nil_of_perm hnone (.refl _) hchosen hp)
  · rcases survivors_cases sources with ⟨hnil, -⟩ | ⟨need, lo, hi, hchosen, hkept⟩
    · exact absurd hnil (survivors_ne_nil_of_perm hnone hp hchosen' (.refl _))
    · have hsame : sources.filter (survives lo' hi') = sources.filter (survives lo hi) := by
        refine List.filter_congr ?_
        intro s hs
        have hiff := (meetsFirmest_iff hnone hp hchosen' hs).symm.trans
          (meetsFirmest_iff hnone (.refl _) hchosen hs)
        rw [Bool.eq_iff_iff, survives, survives, Bool.and_eq_true, Bool.and_eq_true,
          decide_eq_true_eq, decide_eq_true_eq, decide_eq_true_eq, decide_eq_true_eq]
        exact hiff
      rw [hkept', hkept, ← hsame]
      have hsorted := List.perm_insertionSort Before (sources'.filter (survives lo' hi'))
      exact (hsorted.trans (hp.filter _)).trans (List.perm_insertionSort Before _).symm

theorem combined_perm {kept kept' : List (SourceEstimate R)} (h : kept'.Perm kept) :
    combined kept' = combined kept := by
  unfold combined
  rw [(h.map _).sum_eq, (h.map _).sum_eq]

/-! ## Where a touch decides -/

/-- Sources in ascending order: what ends at a point comes before what begins there. -/
def ascending (sources : List (SourceEstimate R)) : List (SourceEstimate R) :=
  sources.insertionSort fun s t => lower s ≤ lower t

/-- The same, but what begins at `x` first. -/
def ascendingBut (x : R) (sources : List (SourceEstimate R)) : List (SourceEstimate R) :=
  sources.filter (fun s => lower s = x) ++ ascending (sources.filter fun s => lower s ≠ x)

theorem ascending_perm (sources : List (SourceEstimate R)) : (ascending sources).Perm sources :=
  List.perm_insertionSort _ _

theorem ascendingBut_perm (x : R) (sources : List (SourceEstimate R)) :
    (ascendingBut x sources).Perm sources := by
  have hboth := List.filter_append_perm (fun s => decide (lower s = x)) sources
  refine ((ascending_perm _).append_left _).trans ?_
  simpa using hboth

theorem pairwise_ascending (sources : List (SourceEstimate R)) (y : R) :
    (ascending sources).Pairwise fun s t => ¬(lower s = y ∧ upper t = y) := by
  refine (Sweep.pairwise_insertionSort lower sources).imp ?_
  rintro s t hle ⟨hs, ht⟩
  have := lower_lt_upper t
  rw [ht, ← hs] at this
  exact absurd hle (not_le.mpr this)

/-- In ascending order the scans count the firm overlap. -/
theorem reached_ascending :
    x ∈ reached (ascending sources) need ↔ need ≤ firm sources x := by
  constructor
  · intro h
    rw [← firm_perm (ascending_perm sources)]
    exact le_firm_of_reached h (pairwise_ascending sources x)
  · exact reached_of_firm (ascending_perm sources)

/-- What begins at `x` first, the scans count all that is at `x`. -/
theorem reached_ascendingBut_self :
    x ∈ reached (ascendingBut x sources) (depth sources x) := by
  refine ⟨_, _, rfl, ?_⟩
  rw [← depth_perm (ascendingBut_perm x sources), ascendingBut, depth]
  refine (Sweep.overlap_eq_depth ?_ ?_).ge
  · intro s hs hupper
    have hlower := of_decide_eq_true (List.mem_filter.mp hs).2
    exact (lower_lt_upper s).ne (hlower.trans hupper.symm)
  · intro s hs
    rw [(ascending_perm _).mem_iff, List.mem_filter] at hs
    simpa using hs.2

/-- Elsewhere they count the firm overlap. -/
theorem reached_ascendingBut_of_ne (hne : y ≠ x) (h : y ∈ reached (ascendingBut x sources) need) :
    need ≤ firm sources y := by
  rw [← firm_perm (ascendingBut_perm x sources)]
  refine le_firm_of_reached h (List.pairwise_append.mpr ⟨?_, pairwise_ascending _ y, ?_⟩)
  · refine List.pairwise_of_forall_mem_list ?_
    rintro s hs t - ⟨hlower, -⟩
    exact hne (hlower.symm.trans (of_decide_eq_true (List.mem_filter.mp hs).2))
  · rintro s hs t - ⟨hlower, -⟩
    exact hne (hlower.symm.trans (of_decide_eq_true (List.mem_filter.mp hs).2))

/-- In ascending order the sources kept are those that meet the hull of the deepest firm
overlap. -/
theorem mem_survivors_ascending {s : SourceEstimate R} (hs : s ∈ sources) :
    s ∈ survivors (ascending sources) ↔ MeetsFirmest sources s := by
  have hp := ascending_perm sources
  rcases survivors_cases (ascending sources) with ⟨hnil, -⟩ | ⟨need, lo, hi, hchosen, hkept⟩
  · rw [hnil]
    refine iff_of_false List.not_mem_nil ?_
    rintro ⟨⟨x, -, hmajority, -⟩, -⟩
    rw [← hp.length_eq] at hmajority
    exact survivors_ne_nil hmajority (reached_ascending.mpr le_rfl) hnil
  · have hfirmest : ∀ x ∈ reached (ascending sources) need, Firmest sources x := by
      intro x hx
      have hfirm := reached_ascending.mp hx
      have hmajority := hchosen.majority
      rw [hp.length_eq] at hmajority
      exact ⟨by omega, fun y => (firm_le_need hp hchosen y).trans hfirm⟩
    have hreached : ∀ x, Firmest sources x → x ∈ reached (ascending sources) need := by
      intro x hx
      exact reached_ascending.mpr ((reached_ascending.mp hchosen.least.1).trans (hx.2 lo))
    rw [mem_survivors_of_kept hp hkept hs]
    constructor
    · rintro ⟨hlo, hhi⟩
      exact ⟨⟨lo, hlo, hfirmest lo hchosen.least.1⟩, ⟨hi, hhi, hfirmest hi hchosen.greatest.1⟩⟩
    · rintro ⟨⟨x, hx, hfirmx⟩, ⟨y, hy, hfirmy⟩⟩
      exact ⟨(hchosen.least.2 (hreached x hfirmx)).trans hx,
        hy.trans (hchosen.greatest.2 (hreached y hfirmy))⟩

/-- What begins at `x` first, what contains `x` is kept if nothing is deeper. -/
theorem mem_survivors_ascendingBut (hmajority : sources.length < 2 * depth sources x)
    (hdeepest : ∀ y, firm sources y ≤ depth sources x) {s : SourceEstimate R} (hs : s ∈ sources)
    (hlower : lower s ≤ x) (hupper : x ≤ upper s) : s ∈ survivors (ascendingBut x sources) := by
  have hp := ascendingBut_perm x sources
  have hself : x ∈ reached (ascendingBut x sources) (depth sources x) := reached_ascendingBut_self
  rcases survivors_cases (ascendingBut x sources) with
    ⟨hnil, -⟩ | ⟨need, lo, hi, hchosen, hkept⟩
  · refine absurd hnil (survivors_ne_nil ?_ hself)
    rw [hp.length_eq]
    exact hmajority
  · have hneed : need ≤ depth sources x := by
      by_cases hlo : lo = x
      · exact hlo ▸ le_depth_of_reached hp hchosen.least.1
      · exact (reached_ascendingBut_of_ne hlo hchosen.least.1).trans (hdeepest lo)
    have hin : x ∈ reached (ascendingBut x sources) need := reached_anti hneed hself
    rw [mem_survivors_of_kept hp hkept hs]
    exact ⟨(hchosen.least.2 hin).trans hupper, hlower.trans (hchosen.greatest.2 hin)⟩

/-- And if `x` is deeper than all, nothing else is kept. -/
theorem contains_of_mem_survivors_ascendingBut (hdeeper : ∀ y, firm sources y < depth sources x)
    {s : SourceEstimate R} (hs : s ∈ sources) (hkept : s ∈ survivors (ascendingBut x sources)) :
    lower s ≤ x ∧ x ≤ upper s := by
  have hp := ascendingBut_perm x sources
  rcases survivors_cases (ascendingBut x sources) with
    ⟨hnil, -⟩ | ⟨need, lo, hi, hchosen, hkeeps⟩
  · exact absurd hkept (hnil ▸ List.not_mem_nil)
  · have hends : ∀ e ∈ reached (ascendingBut x sources) need, e = x := by
      intro e he
      by_contra hne
      have hfirm := reached_ascendingBut_of_ne hne he
      have hneed := hchosen.le_need reached_ascendingBut_self
      have hless := hdeeper e
      omega
    rw [mem_survivors_of_kept hp hkeeps hs, hends lo hchosen.least.1,
      hends hi hchosen.greatest.1] at hkept
    exact ⟨hkept.2, hkept.1⟩

/-- If the two orders keep the same sources, the touch at `x` is settled. -/
theorem settled_of_same (hupper : ∃ s ∈ sources, upper s = x) (hlower : ∃ t ∈ sources, lower t = x)
    (hmajority : sources.length < 2 * depth sources x)
    (hdeepest : ∀ y, firm sources y ≤ depth sources x)
    (hsame : ∀ s ∈ sources,
      s ∈ survivors (ascending sources) ↔ s ∈ survivors (ascendingBut x sources)) :
    Settled sources x := by
  -- what contains `x` is kept with `x` counted in full, so it meets the firm hull
  have hmeets : ∀ s ∈ sources, lower s ≤ x → x ≤ upper s → MeetsFirmest sources s := by
    intro s hs hl hu
    rw [← mem_survivors_ascending hs, hsame s hs]
    exact mem_survivors_ascendingBut hmajority hdeepest hs hl hu
  obtain ⟨s, hs, hsx⟩ := hupper
  obtain ⟨t, ht, htx⟩ := hlower
  obtain ⟨⟨y, hy, hfirmy⟩, -⟩ := hmeets s hs ((lower_lt_upper s).le.trans hsx.le) hsx.ge
  obtain ⟨-, ⟨z, hz, hfirmz⟩⟩ := hmeets t ht htx.le (htx.ge.trans (lower_lt_upper t).le)
  refine ⟨⟨y, hy.trans hsx.le, hfirmy⟩, ⟨z, htx.ge.trans hz, hfirmz⟩, ?_⟩
  intro hdeeper r hr hmeet
  refine contains_of_mem_survivors_ascendingBut hdeeper hr ?_
  rw [← hsame r hr, mem_survivors_ascending hr]
  exact hmeet

/-! ## Order and selection -/

/-- Identifiers tell the sources apart, so they tell what is kept. -/
theorem mem_survivors_iff_id (hids : (sources.map fun s => s.id).Nodup)
    (hp : sources'.Perm sources) {s : SourceEstimate R} (hs : s ∈ sources) :
    s ∈ survivors sources' ↔ s.id ∈ (select sources').truechimers := by
  rw [truechimers_eq, List.mem_map]
  constructor
  · intro h
    exact ⟨s, h, rfl⟩
  · rintro ⟨t, ht, hid⟩
    have hmem := hp.subset ((survivors_subperm sources').subset ht)
    rwa [← List.inj_on_of_nodup_map hids hmem hs hid]

/-- **A selection depends on no order exactly where no touch decides it.** -/
theorem select_perm_iff (sources : List (SourceEstimate R))
    (hids : (sources.map fun s => s.id).Nodup) :
    (∀ sources', sources'.Perm sources →
        (∀ i, i ∈ (select sources').truechimers ↔ i ∈ (select sources).truechimers) ∧
          (select sources').offset = (select sources).offset) ↔
      ∀ x, ¬Decides sources x := by
  constructor
  · rintro hsame x ⟨hupper, hlower, hmajority, hdeepest, hsettled⟩
    refine hsettled (settled_of_same hupper hlower hmajority hdeepest ?_)
    intro s hs
    rw [mem_survivors_iff_id hids (ascending_perm sources) hs,
      mem_survivors_iff_id hids (ascendingBut_perm x sources) hs,
      (hsame _ (ascending_perm sources)).1, (hsame _ (ascendingBut_perm x sources)).1]
  · intro hnone sources' hp
    have hkept := survivors_perm hnone hp
    constructor
    · intro i
      rw [truechimers_eq, truechimers_eq]
      exact (hkept.map _).mem_iff
    · rw [select_eq, select_eq]
      have hempty : (survivors sources').isEmpty = (survivors sources).isEmpty := by
        rw [Bool.eq_iff_iff, List.isEmpty_iff, List.isEmpty_iff]
        exact ⟨fun h => List.nil_perm.mp (h ▸ hkept), fun h => List.perm_nil.mp (h ▸ hkept)⟩
      rw [hempty]
      split
      · rfl
      · exact combined_perm hkept

/-- Two sources that touch at a point. -/
def touching : List (SourceEstimate ℚ) := [⟨0, 1, 1, 2⟩, ⟨1, 3, 1, 2⟩]

theorem touching_depends_on_order :
    ¬∀ sources sources' : List (SourceEstimate ℚ), (sources.map fun s => s.id).Nodup →
      sources'.Perm sources →
        (∀ i, i ∈ (select sources').truechimers ↔ i ∈ (select sources).truechimers) ∧
          (select sources').offset = (select sources).offset := by
  intro h
  have hids := (h touching touching.reverse (by decide) touching.reverse_perm).1 0
  have hone : 0 ∈ (select touching.reverse).truechimers := by decide +kernel
  have hother : 0 ∉ (select touching).truechimers := by decide +kernel
  exact hother (hids.mp hone)

/-- Sources that overlap, and touch nowhere. -/
theorem bridged_any_order :
    (∀ i, i ∈ (select (bridged.take 2).reverse).truechimers ↔
        i ∈ (select (bridged.take 2)).truechimers) ∧
      (select (bridged.take 2).reverse).offset = (select (bridged.take 2)).offset := by
  refine (select_perm_iff (bridged.take 2) (by decide +kernel)).mpr ?_ _ (List.reverse_perm _)
  rintro x ⟨⟨s, hs, hsx⟩, ⟨t, ht, htx⟩, -⟩
  have hapart : ∀ s ∈ bridged.take 2, ∀ t ∈ bridged.take 2, lower t ≠ upper s := by
    decide +kernel
  exact hapart s hs t ht (htx.trans hsx.symm)

end RustyTime.Select
