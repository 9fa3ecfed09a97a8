import Mathlib.Algebra.BigOperators.Ring.List
import Mathlib.Algebra.Order.BigOperators.Group.List
import Mathlib.Order.Bounds.Basic
import Mathlib.Tactic.Ring
import RustyTime.Properties.Select
import RustyTime.Spec.Selection

/-!
# The majority a selection finds

* `chosen_eq_some`, `chosen_eq_none` — the two scans find the hull of the deepest overlap
* `truechimers_share_point_iff` — what is kept shares a point unless that overlap is torn
* `select_majority` — a strict majority is needed, found and combined
-/

namespace RustyTime.Select

open Infra

set_option linter.unusedSectionVars false

variable {R : Type} [Field R] [LinearOrder R] [IsStrictOrderedRing R]
  {sources : List (SourceEstimate R)} {need : Nat} {lo hi x : R}

/-- The ends of a source's interval, as the sweep marks them. -/
def marking : Sweep.Marking (SourceEstimate R) (Edge R) R where
  value := Edge.value
  kind := Edge.kind
  entry s := ⟨lower s, 1⟩
  exit s := ⟨upper s, -1⟩
  kind_entry _ := rfl
  kind_exit _ := rfl
  entry_lt_exit := lower_lt_upper

theorem marking_kind (e : Edge R) : marking.kind e = e.kind := rfl

@[simp] theorem marking_lo : (marking (R := R)).lo = lower := rfl

@[simp] theorem marking_hi : (marking (R := R)).hi = upper := rfl

theorem edges_eq_sweep (sources : List (SourceEstimate R)) :
    edges sources = marking.sweep sources := rfl

/-! ## One scan -/

/-- A scan stops at the first edge it can: a prefix that counts enough holds that edge. -/
theorem scan_eq_some {sign need count : Int} {es : List (Edge R)} {v : R}
    (h : scan sign need count es = some v) :
    ∃ pre e post, es = pre ++ e :: post ∧ e.value = v ∧
      need ≤ count + sign * marking.count (pre ++ [e]) ∧
      ∀ p q, es = p ++ q → p ≠ [] → need ≤ count + sign * marking.count p → e ∈ p := by
  induction es generalizing count with
  | nil => exact nomatch h
  | cons e es ih =>
    unfold scan at h
    split at h
    · next hneed =>
      cases h
      refine ⟨[], e, es, rfl, rfl, ?_, ?_⟩
      · simpa [marking_kind] using hneed
      · intro p q hsplit hne _
        obtain ⟨a, p, rfl⟩ := List.exists_cons_of_ne_nil hne
        rw [List.cons_append, List.cons.injEq] at hsplit
        simp [hsplit.1]
    · next hmore =>
      obtain ⟨pre, e', post, hes, hv, hneed, hfirst⟩ := ih h
      refine ⟨e :: pre, e', post, by simp [hes], hv, ?_, ?_⟩
      · rw [List.cons_append, Sweep.Marking.count_cons, mul_add, ← add_assoc]
        exact hneed
      · intro p q hsplit hne hcount
        obtain ⟨a, p, rfl⟩ := List.exists_cons_of_ne_nil hne
        rw [List.cons_append, List.cons.injEq] at hsplit
        rw [Sweep.Marking.count_cons, mul_add, ← add_assoc, ← hsplit.1] at hcount
        have hp : p ≠ [] := by
          rintro rfl
          exact hmore (by simpa [marking_kind] using hcount)
        exact List.mem_cons_of_mem a (hfirst p q hsplit.2 hp hcount)

theorem scan_eq_none {sign need count : Int} {es p q : List (Edge R)}
    (h : scan sign need count es = none) (hsplit : es = p ++ q) (hne : p ≠ []) :
    count + sign * marking.count p < need := by
  induction es generalizing count p with
  | nil => exact absurd (List.append_eq_nil_iff.mp hsplit.symm).1 hne
  | cons e es ih =>
    unfold scan at h
    split at h
    · cases h
    · next hmore =>
      obtain ⟨a, p, rfl⟩ := List.exists_cons_of_ne_nil hne
      rw [List.cons_append, List.cons.injEq] at hsplit
      rw [Sweep.Marking.count_cons, mul_add, ← add_assoc, ← hsplit.1]
      by_cases hp : p = []
      · simpa [marking_kind, hp] using hmore
      · exact ih h hsplit.2 hp

/-! ## The two scans -/

/-- Where an overlap is reached, the edges up to there count it, and so do, with the opposite
sign, the edges from there. -/
theorem edges_of_reached (h : x ∈ reached sources need) :
    ∃ pre post, edges sources = pre ++ post ∧ (∀ e ∈ pre, e.value ≤ x) ∧
      (∀ e ∈ post, x ≤ e.value) ∧ (need : Int) ≤ marking.count pre ∧
      (need : Int) ≤ -marking.count post := by
  obtain ⟨read, rest, rfl, hneed⟩ := h
  obtain ⟨pre, post, hsplit, hle, hge, hcount⟩ := marking.append_of_overlap read rest x
  have htotal := marking.count_sweep (read ++ rest)
  rw [hsplit, Sweep.Marking.count_append] at htotal
  rw [marking_lo, marking_hi] at hcount
  refine ⟨pre, post, hsplit, hle, hge, ?_, ?_⟩
  · omega
  · omega

/-- An edge where the count is `need` is a point of that overlap. -/
theorem reached_of_edges {pre post : List (Edge R)} (h : edges sources = pre ++ post)
    (hpre : ∀ e ∈ pre, e.value ≤ x) (hpost : ∀ e ∈ post, x ≤ e.value)
    (hneed : (need : Int) ≤ marking.count pre) : x ∈ reached sources need := by
  have hsplit : marking.sweep sources = pre ++ post := h
  obtain ⟨read, rest, hread, hcount⟩ := Sweep.Marking.count_of_append hsplit hpre hpost
  rw [marking_lo, marking_hi] at hcount
  exact ⟨read, rest, hread, by omega⟩

theorem ne_nil_of_count {es : List (Edge R)} {sign : Int} (hneed : 0 < need)
    (h : (need : Int) ≤ sign * marking.count es) : es ≠ [] := by
  rintro rfl
  rw [Sweep.Marking.count_nil, mul_zero] at h
  omega

/-- The scan up stops at the least point of overlap `need`. -/
theorem isLeast_of_scan (hneed : 0 < need) (h : scan 1 need 0 (edges sources) = some lo) :
    IsLeast (reached sources need) lo := by
  obtain ⟨pre, e, post, hsplit, rfl, hcount, hfirst⟩ := scan_eq_some h
  have hsorted := marking.pairwise_sweep sources
  rw [← edges_eq_sweep, hsplit] at hsorted
  obtain ⟨-, hpost, hpre⟩ := List.pairwise_append.mp hsorted
  constructor
  · have happend : edges sources = (pre ++ [e]) ++ post := by simp [hsplit]
    refine reached_of_edges happend ?_
      (List.pairwise_cons.mp hpost).1 (by simpa using hcount)
    intro a ha
    rcases List.mem_append.mp ha with ha | ha
    · exact hpre a ha e List.mem_cons_self
    · exact (congrArg Edge.value (List.mem_singleton.mp ha)).le
  · intro y hy
    obtain ⟨pre', post', hsplit', hle, -, hreach, -⟩ := edges_of_reached hy
    have henough : (need : Int) ≤ 1 * marking.count pre' := by simpa using hreach
    exact hle e (hfirst pre' post' hsplit' (ne_nil_of_count hneed henough) (by simpa using hreach))

/-- The scan down stops at the greatest point of overlap `need`. -/
theorem isGreatest_of_scan (hneed : 0 < need)
    (h : scan (-1) need 0 (edges sources).reverse = some hi) :
    IsGreatest (reached sources need) hi := by
  obtain ⟨pre, e, post, hrev, rfl, hcount, hfirst⟩ := scan_eq_some h
  have hsplit : edges sources = post.reverse ++ e :: pre.reverse := by
    rw [← List.reverse_reverse (edges sources), hrev]
    simp
  have hsorted := marking.pairwise_sweep sources
  rw [← edges_eq_sweep, hsplit] at hsorted
  obtain ⟨-, hpost, hpre⟩ := List.pairwise_append.mp hsorted
  have htotal := marking.count_sweep sources
  rw [← edges_eq_sweep, hsplit] at htotal
  constructor
  · refine reached_of_edges hsplit (fun a ha => hpre a ha e List.mem_cons_self)
      (List.forall_mem_cons.mpr ⟨le_refl _, (List.pairwise_cons.mp hpost).1⟩) ?_
    simp at hcount htotal ⊢
    omega
  · intro y hy
    obtain ⟨pre', post', hsplit', -, hge, -, hreach⟩ := edges_of_reached hy
    have henough : (need : Int) ≤ -1 * marking.count post'.reverse := by simpa using hreach
    refine hge e (List.mem_reverse.mp ?_)
    refine hfirst post'.reverse pre'.reverse ?_ (ne_nil_of_count hneed henough) ?_
    · rw [hsplit', List.reverse_append]
    · simpa using hreach

theorem reached_eq_empty_of_scan_up (hneed : 0 < need)
    (h : scan 1 need 0 (edges sources) = none) : reached sources need = ∅ := by
  refine Set.eq_empty_iff_forall_notMem.mpr ?_
  intro y hy
  obtain ⟨pre, post, hsplit, -, -, hreach, -⟩ := edges_of_reached hy
  have henough : (need : Int) ≤ 1 * marking.count pre := by simpa using hreach
  have := scan_eq_none h hsplit (ne_nil_of_count hneed henough)
  omega

theorem reached_eq_empty_of_scan_down (hneed : 0 < need)
    (h : scan (-1) need 0 (edges sources).reverse = none) : reached sources need = ∅ := by
  refine Set.eq_empty_iff_forall_notMem.mpr ?_
  intro y hy
  obtain ⟨pre, post, hsplit, -, -, -, hreach⟩ := edges_of_reached hy
  have henough : (need : Int) ≤ -1 * marking.count post.reverse := by simpa using hreach
  have hrev : (edges sources).reverse = post.reverse ++ pre.reverse := by
    rw [hsplit, List.reverse_append]
  have := scan_eq_none h hrev (ne_nil_of_count hneed henough)
  omega

/-! ## The intersection -/

theorem reached_anti {m : Nat} (h : need ≤ m) : reached sources m ⊆ reached sources need := by
  rintro y ⟨read, rest, hread, hy⟩
  exact ⟨read, rest, hread, h.trans hy⟩

/-- No overlap is of more intervals than there are. -/
theorem reached_eq_empty_of_length (h : sources.length < need) : reached sources need = ∅ := by
  refine Set.eq_empty_iff_forall_notMem.mpr ?_
  rintro y ⟨read, rest, rfl, hy⟩
  have hdepth : Sweep.overlap lower upper read rest y ≤
      Sweep.depth lower upper (read ++ rest) y := Sweep.overlap_le_depth
  have hlength : Sweep.depth lower upper (read ++ rest) y ≤ (read ++ rest).length :=
    Sweep.depth_le_length
  omega

/-- An intersection is the hull of its overlap. -/
theorem intersection_eq_some {n f : Nat} (hneed : 0 < n - f)
    (h : intersection (edges sources) n f = some (lo, hi)) :
    IsLeast (reached sources (n - f)) lo ∧ IsGreatest (reached sources (n - f)) hi := by
  unfold intersection at h
  dsimp only at h
  split at h
  · next lo' hi' hlo hhi =>
    split at h
    · cases h
      exact ⟨isLeast_of_scan hneed hlo, isGreatest_of_scan hneed hhi⟩
    · exact nomatch h
  · exact nomatch h

/-- There is no intersection only where there is no overlap: the ends found are in order. -/
theorem intersection_eq_none {n f : Nat} (hneed : 0 < n - f)
    (h : intersection (edges sources) n f = none) : reached sources (n - f) = ∅ := by
  unfold intersection at h
  dsimp only at h
  split at h
  · next lo hi hlo hhi =>
    have hle : lo ≤ hi := (isLeast_of_scan hneed hlo).2 (isGreatest_of_scan hneed hhi).1
    simp [hle] at h
  · next hnot =>
    cases hlo : scan 1 ((n - f : Nat) : Int) 0 (edges sources) with
    | none => exact reached_eq_empty_of_scan_up hneed hlo
    | some lo =>
      cases hhi : scan (-1) ((n - f : Nat) : Int) 0 (edges sources).reverse with
      | none => exact reached_eq_empty_of_scan_down hneed hhi
      | some hi => exact absurd hhi (hnot lo hi hlo)

/-- What the sweeps chose: the hull of the deepest overlap, a majority's. -/
structure Chosen (sources : List (SourceEstimate R)) (need : Nat) (lo hi : R) : Prop where
  majority : sources.length < 2 * need
  least : IsLeast (reached sources need) lo
  greatest : IsGreatest (reached sources need) hi
  deepest : reached sources (need + 1) = ∅

theorem chosen_nil : chosen (edges ([] : List (SourceEstimate R))) 0 = none := rfl

/-- **A choice is the hull of the deepest overlap.** -/
theorem chosen_eq_some (h : chosen (edges sources) sources.length = some (lo, hi)) :
    ∃ need, Chosen sources need lo hi := by
  by_cases hnil : sources = []
  · subst hnil
    exact absurd (chosen_nil.symm.trans h) (by simp)
  · unfold chosen at h
    have hpos := List.length_pos_iff.mpr hnil
    obtain ⟨before, f, after, hrange, hf, hbefore⟩ := List.findSome?_eq_some_iff.mp h
    have hlt : f < (sources.length - 1) / 2 + 1 := by
      rw [← List.mem_range, hrange]
      simp
    have hends := intersection_eq_some (by omega) hf
    refine ⟨sources.length - f, by omega, hends.1, hends.2, ?_⟩
    cases f with
    | zero => exact reached_eq_empty_of_length (by omega)
    | succ f =>
      -- one falseticker fewer had no intersection
      have hmem : f ∈ before := by
        have hsorted := List.pairwise_lt_range (n := (sources.length - 1) / 2 + 1)
        rw [hrange] at hsorted
        have hf' : f ∈ before ++ (f + 1) :: after := by
          rw [← hrange, List.mem_range]
          omega
        rcases List.mem_append.mp hf' with hin | hin
        · exact hin
        · have hge := (List.pairwise_cons.mp (List.pairwise_append.mp hsorted).2.1).1
          rcases List.mem_cons.mp hin with he | hin
          · omega
          · have := hge f hin
            omega
      have hnone := intersection_eq_none (by omega) (hbefore f hmem)
      rwa [show sources.length - f = sources.length - (f + 1) + 1 by omega] at hnone

/-- No choice is made only where no overlap is a majority's. -/
theorem chosen_eq_none (h : chosen (edges sources) sources.length = none)
    (hmajority : sources.length < 2 * need) : reached sources need = ∅ := by
  by_cases hlong : sources.length < need
  · exact reached_eq_empty_of_length hlong
  · unfold chosen at h
    rw [List.findSome?_eq_none_iff] at h
    have hnone := h (sources.length - need) (List.mem_range.mpr (by omega))
    have := intersection_eq_none (by omega) hnone
    rwa [show sources.length - (sources.length - need) = need by omega] at this

/-! ## What is kept -/

theorem survivors_of_chosen (h : chosen (edges sources) sources.length = some (lo, hi)) :
    survivors sources = (sources.filter (survives lo hi)).insertionSort Before := by
  simp [survivors, h]

/-- Nothing is kept and no overlap is a majority's, or what meets the hull of the deepest is. -/
theorem survivors_cases (sources : List (SourceEstimate R)) :
    (survivors sources = [] ∧
        ∀ need, sources.length < 2 * need → reached sources need = ∅) ∨
      ∃ need lo hi, Chosen sources need lo hi ∧
        survivors sources = (sources.filter (survives lo hi)).insertionSort Before := by
  cases h : chosen (edges sources) sources.length with
  | none => exact .inl ⟨by simp [survivors, h], fun _ => chosen_eq_none h⟩
  | some ends =>
    obtain ⟨need, hchosen⟩ := chosen_eq_some h
    exact .inr ⟨need, ends.1, ends.2, hchosen, survivors_of_chosen h⟩

theorem mem_filter_survives {s : SourceEstimate R} :
    s ∈ (sources.filter (survives lo hi)).insertionSort Before ↔
      s ∈ sources ∧ lo ≤ upper s ∧ lower s ≤ hi := by
  rw [List.mem_insertionSort, List.mem_filter, survives, Bool.and_eq_true, decide_eq_true_eq,
    decide_eq_true_eq]
  rfl

theorem select_eq (sources : List (SourceEstimate R)) :
    select sources =
      if (survivors sources).isEmpty then .default
      else
        { truechimers := (survivors sources).map fun s => s.id
          offset := combined (survivors sources) } := by
  unfold select survivors
  by_cases hnil : sources = []
  · subst hnil
    simp [chosen_nil]
  · rw [if_neg fun h => hnil (List.length_eq_zero_iff.mp h)]
    cases chosen (edges sources) sources.length with
    | none => rfl
    | some ends => rfl

theorem truechimers_eq (sources : List (SourceEstimate R)) :
    (select sources).truechimers = (survivors sources).map fun s => s.id := by
  rw [select_eq]
  split
  · next h => simp [List.isEmpty_iff.mp h, Selection.default]
  · rfl

theorem truechimers_ne_nil : (select sources).truechimers ≠ [] ↔ survivors sources ≠ [] := by
  simp [truechimers_eq]

namespace Chosen

variable (h : Chosen sources need lo hi)
include h

theorem lo_le_hi : lo ≤ hi := h.least.2 h.greatest.1

theorem deepest_lo : Deepest sources lo := ⟨need, h.majority, h.least.1, h.deepest⟩

theorem deepest_hi : Deepest sources hi := ⟨need, h.majority, h.greatest.1, h.deepest⟩

/-- No overlap is deeper than the chosen one. -/
theorem le_need {m : Nat} (hx : x ∈ reached sources m) : m ≤ need := by
  by_contra hlt
  have hin := reached_anti (by omega : need + 1 ≤ m) hx
  rw [h.deepest] at hin
  exact hin

/-- The deepest overlap has one depth. -/
theorem reached_of_deepest (hx : Deepest sources x) : x ∈ reached sources need := by
  obtain ⟨m, -, hin, hnone⟩ := hx
  have hle := h.le_need hin
  by_cases he : m = need
  · exact he ▸ hin
  · have hlo := reached_anti (by omega : m + 1 ≤ need) h.least.1
    rw [hnone] at hlo
    exact absurd hlo (Set.notMem_empty lo)

/-- What contains a point of the hull is kept. -/
theorem need_le_length :
    need ≤ ((sources.filter (survives lo hi)).insertionSort Before).length := by
  obtain ⟨read, rest, rfl, hneed⟩ := h.least.1
  rw [List.length_insertionSort, ← List.countP_eq_length_filter]
  refine (hneed.trans Sweep.overlap_le_depth).trans (List.countP_mono_left ?_)
  intro s _ hs
  rw [decide_eq_true_eq] at hs
  rw [survives, Bool.and_eq_true, decide_eq_true_eq, decide_eq_true_eq]
  exact ⟨hs.2, hs.1.trans h.lo_le_hi⟩

end Chosen

/-- Where a majority overlaps, something is kept. -/
theorem survivors_ne_nil (hmajority : sources.length < 2 * need)
    (hx : x ∈ reached sources need) : survivors sources ≠ [] := by
  rcases survivors_cases sources with ⟨-, hnone⟩ | ⟨m, lo, hi, hchosen, hkept⟩
  · rw [hnone need hmajority] at hx
    exact absurd hx (Set.notMem_empty x)
  · intro hnil
    have hlen := hchosen.need_le_length
    have := hchosen.majority
    rw [← hkept, hnil, List.length_nil] at hlen
    omega

/-! ## One point for all that is kept -/

/-- **The kept sources share a point unless the deepest overlap is torn**: unless one source
ends before another begins, between two points of it. -/
theorem truechimers_share_point_iff (sources : List (SourceEstimate R)) :
    ((select sources).truechimers ≠ [] →
        ∃ p, ∀ s ∈ survivors sources, p ∈ Set.Icc (lower s) (upper s)) ↔ ¬Torn sources := by
  rw [truechimers_ne_nil]
  constructor
  · rintro hshare ⟨s, hs, t, ht, hgap, ⟨x, hx, hdeepx⟩, ⟨y, hy, hdeepy⟩⟩
    have hne : survivors sources ≠ [] := by
      obtain ⟨m, hmajority, hin, -⟩ := hdeepx
      exact survivors_ne_nil hmajority hin
    obtain ⟨p, hp⟩ := hshare hne
    rcases survivors_cases sources with ⟨hnil, -⟩ | ⟨need, lo, hi, hchosen, hkept⟩
    · exact hne hnil
    · -- both sources of the gap meet the hull, and a shared point would lie in the gap
      have hlo := (hchosen.least.2 (hchosen.reached_of_deepest hdeepx)).trans hx
      have hhi := hy.trans (hchosen.greatest.2 (hchosen.reached_of_deepest hdeepy))
      rw [hkept] at hp
      have hps := hp s (mem_filter_survives.mpr ⟨hs, hlo, (lower_lt_upper s).le.trans
        (hgap.le.trans hhi)⟩)
      have hpt := hp t (mem_filter_survives.mpr ⟨ht, (hlo.trans hgap.le).trans
        (lower_lt_upper t).le, hhi⟩)
      exact absurd (hpt.1.trans hps.2) (not_le.mpr hgap)
  · intro hwhole hne
    refine Sweep.exists_common_point hne ?_
    intro t ht s hs
    by_contra hgap
    rcases survivors_cases sources with ⟨hnil, -⟩ | ⟨need, lo, hi, hchosen, hkept⟩
    · exact hne hnil
    · rw [hkept, mem_filter_survives] at hs ht
      exact hwhole ⟨s, hs.1, t, ht.1, not_le.mp hgap, ⟨lo, hs.2.1, hchosen.deepest_lo⟩,
        ⟨hi, ht.2.2, hchosen.deepest_hi⟩⟩

/-- Three sources, the one in the middle agreeing with each of the others. -/
def bridged : List (SourceEstimate ℚ) :=
  [⟨0, 1, 1, 2⟩, ⟨1, 5 / 2, 3 / 2, 2⟩, ⟨2, 4, 1, 2⟩]

theorem bridged_share_no_point :
    ¬∀ sources : List (SourceEstimate ℚ), (select sources).truechimers ≠ [] →
      ∃ p, ∀ s ∈ survivors sources, p ∈ Set.Icc (lower s) (upper s) := by
  intro h
  obtain ⟨p, hp⟩ := h bridged (by decide +kernel)
  have hends : (survivors bridged).map (fun s => (lower s, upper s)) =
      [(0, 2), (3, 5), (1, 4)] := by decide +kernel
  have hmem : ∀ ends ∈ [((0 : ℚ), (2 : ℚ)), (3, 5), (1, 4)], ends.1 ≤ p ∧ p ≤ ends.2 := by
    rw [← hends]
    intro ends hin
    obtain ⟨s, hs, rfl⟩ := List.mem_map.mp hin
    exact hp s hs
  have hfirst := (hmem (0, 2) (by simp)).2
  have hlast := (hmem (3, 5) (by simp)).1
  norm_num at hfirst hlast
  linarith

/-- Without the third source nothing is torn. -/
theorem bridged_take_share_point :
    ∃ p, ∀ s ∈ survivors (bridged.take 2), p ∈ Set.Icc (lower s) (upper s) := by
  refine (truechimers_share_point_iff (bridged.take 2)).mpr ?_ (by decide +kernel)
  rintro ⟨s, hs, t, ht, hgap, -⟩
  have hmeet : ∀ s ∈ bridged.take 2, ∀ t ∈ bridged.take 2, lower t ≤ upper s := by decide +kernel
  exact absurd hgap (not_lt.mpr (hmeet s hs t ht))

/-! ## A strict majority -/

/-- **The combined offset is a convex combination.** -/
theorem combined_convex {kept : List (SourceEstimate R)} (hne : kept ≠ []) :
    ∃ weights : List R, weights.length = kept.length ∧ (∀ w ∈ weights, 0 < w) ∧
      weights.sum = 1 ∧
      combined kept = some (List.zipWith (fun w s => w * s.offset) weights kept).sum := by
  have hpos : 0 < (kept.map fun s => 1 / radius s).sum := by
    refine List.sum_pos _ ?_ (by simpa using hne)
    intro w hw
    obtain ⟨s, -, rfl⟩ := List.mem_map.mp hw
    exact one_div_pos.mpr (radius_pos s)
  refine ⟨kept.map fun s => 1 / radius s * (kept.map fun s => 1 / radius s).sum⁻¹, ?_, ?_, ?_, ?_⟩
  · exact List.length_map _
  · intro w hw
    obtain ⟨s, -, rfl⟩ := List.mem_map.mp hw
    exact mul_pos (one_div_pos.mpr (radius_pos s)) (inv_pos.mpr hpos)
  · rw [List.sum_map_mul_right]
    exact mul_inv_cancel₀ hpos.ne'
  · rw [combined, if_pos hpos, List.zipWith_map_left, List.zipWith_self, div_eq_mul_inv,
      ← List.sum_map_mul_right]
    congr 2
    refine List.map_congr_left ?_
    intro s _
    ring

theorem survivors_subperm (sources : List (SourceEstimate R)) :
    (survivors sources).Subperm sources := by
  rcases survivors_cases sources with ⟨hnil, -⟩ | ⟨need, lo, hi, -, hkept⟩
  · rw [hnil]
    exact List.nil_subperm
  · rw [hkept]
    exact (List.perm_insertionSort Before _).subperm.trans List.filter_sublist.subperm

/-- What is kept is kept best first. -/
theorem survivors_pairwise (sources : List (SourceEstimate R)) :
    (survivors sources).Pairwise Before := by
  have : Std.Total (Before (R := R)) := ⟨before_total⟩
  have : IsTrans (SourceEstimate R) Before := ⟨fun _ _ _ => before_trans⟩
  rcases survivors_cases sources with ⟨hnil, -⟩ | ⟨need, lo, hi, -, hkept⟩
  · rw [hnil]
    exact .nil
  · rw [hkept]
    exact List.pairwise_insertionSort Before _

/-- What is kept is a majority. -/
theorem length_lt_of_survivors (hne : survivors sources ≠ []) :
    sources.length < 2 * (survivors sources).length := by
  rcases survivors_cases sources with ⟨hnil, -⟩ | ⟨need, lo, hi, hchosen, hkept⟩
  · exact absurd hnil hne
  · rw [hkept]
    have hneed := hchosen.need_le_length
    have hmajority := hchosen.majority
    omega

/-- Nothing is kept where no point is in a majority of the intervals. -/
theorem survivors_eq_nil (hsparse : ∀ x, 2 * depth sources x ≤ sources.length) :
    survivors sources = [] := by
  rcases survivors_cases sources with ⟨hnil, -⟩ | ⟨need, lo, hi, hchosen, -⟩
  · exact hnil
  · -- the lowest point of the hull is in a majority of them
    obtain ⟨read, rest, rfl, hneed⟩ := hchosen.least.1
    have hdepth : need ≤ depth (read ++ rest) lo := hneed.trans Sweep.overlap_le_depth
    have hmost := hsparse lo
    have hmajority := hchosen.majority
    omega

/-- **A selection finds a strict majority if there is one**, keeps one, best first, and combines
what it keeps. -/
theorem select_majority (sources : List (SourceEstimate R)) :
    ((∃ x, sources.length < 2 * sources.countP fun s => decide (lower s < x ∧ x < upper s)) →
        (select sources).truechimers ≠ [] ∧ (select sources).offset ≠ none) ∧
      ((∀ x, 2 * sources.countP (fun s => decide (lower s ≤ x ∧ x ≤ upper s)) ≤ sources.length) →
        select sources = .default) ∧
      ((select sources).truechimers ≠ [] →
        ∃ kept, (select sources).truechimers = kept.map (fun s => s.id) ∧
          kept.Subperm sources ∧ sources.length < 2 * kept.length ∧ kept.Pairwise Before ∧
          ∃ weights : List R, weights.length = kept.length ∧ (∀ w ∈ weights, 0 ≤ w) ∧
            weights.sum = 1 ∧ (select sources).offset =
              some (List.zipWith (fun w s => w * s.offset) weights kept).sum) := by
  have hoffset : survivors sources ≠ [] →
      (select sources).offset = combined (survivors sources) := by
    intro hne
    rw [select_eq, if_neg (by simpa using hne)]
  refine ⟨?_, ?_, ?_⟩
  · rintro ⟨x, hx⟩
    have hreached : x ∈ reached sources
        (sources.countP fun s => decide (lower s < x ∧ x < upper s)) :=
      ⟨[], sources, rfl, Sweep.countP_interior_le_overlap⟩
    have hne := survivors_ne_nil hx hreached
    obtain ⟨weights, -, -, -, hcombined⟩ := combined_convex hne
    refine ⟨truechimers_ne_nil.mpr hne, ?_⟩
    rw [hoffset hne, hcombined]
    exact Option.some_ne_none _
  · intro hsparse
    simp [select_eq, survivors_eq_nil hsparse]
  · intro hne
    rw [truechimers_ne_nil] at hne
    obtain ⟨weights, hlen, hpos, hsum, hcombined⟩ := combined_convex hne
    exact ⟨survivors sources, truechimers_eq sources, survivors_subperm sources,
      length_lt_of_survivors hne, survivors_pairwise sources, weights, hlen,
      fun w hw => (hpos w hw).le, hsum, (hoffset hne).trans hcombined⟩

theorem bridged_majority : (select bridged).truechimers ≠ [] ∧ (select bridged).offset ≠ none :=
  (select_majority bridged).1 ⟨3 / 2, by decide +kernel⟩

end RustyTime.Select
