import Mathlib.Data.List.Chain
import RustyTime.Properties.Slew

/-!
# The present is never voted away

The passes of the regression drop history and spikes. Each of them keeps some of its rows in
their order, the three newest among them, and leaves the fit of what it keeps.

* `adaptWindow_keeps`, `dropHistory_keeps`, `trimSpikes_keeps` — one pass each
* `Attended.holds` — what a register regressed after every push holds
* `newest_always_fitted` — every regression of such a register
-/

namespace RustyTime

set_option linter.unusedSectionVars false

variable {R : Type} [Field R] [LinearOrder R] [IsStrictOrderedRing R]
  {rows used kept : List (Row R)} {fit : Fit R}

/-! ## What a pass keeps -/

/-- The rows that are never dropped. -/
def newest {α : Type} (rows : List α) : List α := rows.drop (rows.length - 3)

theorem newest_suffix {α : Type} (rows : List α) : newest rows <:+ rows := List.drop_suffix _ _

theorem length_newest {α : Type} {rows : List α} (hlen : 3 ≤ rows.length) :
    (newest rows).length = 3 := by
  rw [newest, List.length_drop]
  omega

theorem newest_map {α β : Type} (f : α → β) (rows : List α) :
    newest (rows.map f) = (newest rows).map f := by
  rw [newest, newest, List.length_map, List.map_drop]

/-- Rows that end in the three newest have the same three newest. -/
theorem newest_of_suffix {α : Type} {rows used : List α} (hlen : 3 ≤ rows.length)
    (h : newest rows <:+ used) : newest used = newest rows := by
  rw [List.suffix_iff_eq_drop, length_newest hlen] at h
  exact h.symm

/-- A result of the passes over `rows`: some of them in their order, the newest among them, and
the fit of these. -/
structure Keeps (rows : List (Row R)) (result : List (Row R) × Fit R) : Prop where
  sublist : List.Sublist result.1 rows
  newest : newest rows <:+ result.1
  fit : wlsFit result.1 = some result.2

/-- Rows that can be fitted: each carries weight, and the newest three are there. -/
structure Fittable (rows : List (Row R)) : Prop where
  weight : ∀ r ∈ rows, 0 < r.w
  len : 3 ≤ rows.length

theorem wlsFit_isSome (hpos : ∀ r ∈ rows, 0 < r.w) (hlen : 2 ≤ rows.length) :
    ∃ fit, wlsFit rows = some fit := by
  have hsw : 0 < (rows.map fun r => r.w).sum := by
    refine List.sum_pos _ ?_ ?_
    · intro w hw
      obtain ⟨r, hr, rfl⟩ := List.mem_map.mp hw
      exact hpos r hr
    · exact List.ne_nil_of_length_pos (by rw [List.length_map]; omega)
  unfold wlsFit
  rw [if_neg (by omega)]
  dsimp only
  rw [if_neg (not_le.mpr hsw)]
  exact ⟨_, rfl⟩

theorem Keeps.fittable (hrows : Fittable rows) (h : Keeps rows (used, fit)) : Fittable used where
  weight r hr := hrows.weight r (h.sublist.mem hr)
  len := by
    have hle := h.newest.length_le
    rwa [length_newest hrows.len] at hle

/-- A further pass that keeps some rows with the three newest, and fits them again. -/
theorem Keeps.refit {refit : Fit R} (hrows : Fittable rows) (h : Keeps rows (used, fit))
    (hsub : List.Sublist kept used) (hnewest : RustyTime.newest used <:+ kept)
    (hfit : wlsFit kept = some refit) : Keeps rows (kept, refit) where
  sublist := hsub.trans h.sublist
  newest := by
    rw [← newest_of_suffix hrows.len h.newest]
    exact hnewest
  fit := hfit

/-- What is kept can be fitted. -/
theorem Keeps.exists_refit (hrows : Fittable rows) (h : Keeps rows (used, fit))
    (hsub : List.Sublist kept used) (hnewest : RustyTime.newest used <:+ kept) :
    ∃ refit, wlsFit kept = some refit ∧ Keeps rows (kept, refit) := by
  have hused := h.fittable hrows
  have hlen := hnewest.length_le
  rw [length_newest hused.len] at hlen
  obtain ⟨refit, hfit⟩ := wlsFit_isSome (fun r hr => hused.weight r (hsub.mem hr)) (by omega)
  exact ⟨refit, hfit, h.refit hrows hsub hnewest hfit⟩

/-- A prefix that is dropped spares the three newest when three rows are left. -/
theorem newest_suffix_drop {α : Type} {rows : List α} {k : ℕ} (h : k + 3 ≤ rows.length) :
    newest rows <:+ rows.drop k := by
  have hdrop : newest rows = newest (rows.drop k) := by
    rw [newest, newest, List.drop_drop, List.length_drop]
    congr 1
    omega
  rw [hdrop]
  exact newest_suffix _

/-! ## The passes -/

theorem adaptWindow_keeps (std : StdFloat R) (now : R) (hrows : Fittable rows)
    (h : Keeps rows (used, fit)) :
    ∃ result, adaptWindow std now used fit = some result ∧ Keeps rows result := by
  have hused := h.fittable hrows
  unfold adaptWindow
  dsimp only
  generalize hbest : bestLenFrom std now used used.length 8 _ used.length = bestLen
  have hthree : 3 ≤ bestLen := by
    rw [← hbest]
    exact le_bestLenFrom std now used _ 8 _ _ (by omega) hused.len
  split
  · obtain ⟨refit, hfit, hkeeps⟩ := h.exists_refit hrows (List.drop_sublist _ _)
      (newest_suffix_drop (by omega : used.length - bestLen + 3 ≤ used.length))
    rw [hfit]
    exact ⟨_, rfl, hkeeps⟩
  · exact ⟨_, rfl, h⟩

/-- A pass of the first kind drops a quarter of eight rows or more, so six are left. -/
theorem dropHistory_keeps (hrows : Fittable rows) : ∀ (passes : ℕ) {used : List (Row R)}
    {fit : Fit R}, Keeps rows (used, fit) → Keeps rows (dropHistory passes used fit)
  | 0, _, _, h => h
  | passes + 1, used, fit, h => by
    unfold dropHistory
    dsimp only
    split
    · exact h
    · split
      · exact h
      · split
        · exact h
        · obtain ⟨refit, hfit, hkeeps⟩ := h.exists_refit hrows (List.drop_sublist _ _)
            (newest_suffix_drop (by omega : max (used.length / 4) 2 + 3 ≤ used.length))
          rw [hfit]
          exact dropHistory_keeps hrows passes hkeeps

/-- A filter that passes everything from `k` on keeps what is there. -/
theorem drop_suffix_filter {α β : Type} {k : ℕ} {l : List β} {p : β → Bool} (f : β → α)
    (h : ∀ i b, k ≤ i → l[i]? = some b → p b = true) :
    (l.map f).drop k <:+ (l.filter p).map f := by
  have hall : (l.drop k).filter p = l.drop k := by
    refine List.filter_eq_self.mpr ?_
    intro b hb
    obtain ⟨j, hj⟩ := List.mem_iff_getElem?.mp hb
    rw [List.getElem?_drop] at hj
    exact h (k + j) b (Nat.le_add_right k j) hj
  rw [← List.map_drop, ← hall]
  refine List.IsSuffix.map f ?_
  conv_rhs => rw [← List.take_append_drop k l, List.filter_append]
  exact List.suffix_append _ _

/-- The walk drops none of the three newest. -/
theorem keptRows_walk_newest (threshold : R) :
    newest used <:+ keptRows used fit threshold none := by
  have hsuffix := drop_suffix_filter (k := used.length - 3) (l := used.zipIdx)
    (p := fun p => decide (used.length - 3 ≤ p.2) || decide (|fit.resid p.1| ≤ threshold))
    Prod.fst ?_
  · rw [List.zipIdx_map_fst] at hsuffix
    exact hsuffix
  · intro i b hi hb
    rw [List.getElem?_zipIdx] at hb
    obtain ⟨r, -, rfl⟩ := Option.map_eq_some_iff.mp hb
    simp [hi]

/-- Nor does the mask, which keeps the same rows. -/
theorem keptRows_newest {threshold : R} {mask : Option (BitVec 64)}
    (hmask : spikeKeepMask used fit = some (threshold, mask)) :
    newest used <:+ keptRows used fit threshold mask := by
  unfold spikeKeepMask at hmask
  dsimp only at hmask
  split at hmask
  · exact nomatch hmask
  · split at hmask
    · exact nomatch hmask
    · split at hmask
      · cases hmask
        exact keptRows_walk_newest threshold
      · next hn =>
        cases hmask
        rw [keptRows_keepBits used fit threshold (not_lt.mp hn)]
        exact keptRows_walk_newest threshold

theorem trimSpikes_keeps (hrows : Fittable rows) (h : Keeps rows (used, fit)) :
    Keeps rows (trimSpikes used fit) := by
  rw [trimSpikes_eq]
  split
  · cases hmask : spikeKeepMask used fit with
    | none => exact h
    | some found =>
      obtain ⟨threshold, mask⟩ := found
      dsimp only
      unfold refitKept
      split
      · obtain ⟨refit, hfit, hkeeps⟩ := h.exists_refit hrows
          (keptRows_sublist used fit threshold mask) (keptRows_newest hmask)
        rw [hfit]
        exact hkeeps
      · exact h
  · exact h

/-- All the passes, from the first fit. -/
theorem survivors_keeps (std : StdFloat R) (reg : SampleRegister R) (now : R)
    (hrows : Fittable rows) (hfit : wlsFit rows = some fit) :
    ∃ result, SampleRegister.survivors std reg now rows fit = some result ∧ Keeps rows result := by
  have hfirst : Keeps rows (rows, fit) := ⟨List.Sublist.refl rows, newest_suffix rows, hfit⟩
  have hpasses : ∀ result : List (Row R) × Fit R, Keeps rows result →
      Keeps rows (trimSpikes (dropHistory 4 result.1 result.2).1
        (dropHistory 4 result.1 result.2).2) :=
    fun _ h => trimSpikes_keeps hrows (dropHistory_keeps hrows 4 h)
  unfold SampleRegister.survivors
  split
  · obtain ⟨result, hadapt, hkeeps⟩ := adaptWindow_keeps std now hrows hfirst
    rw [hadapt]
    exact ⟨_, rfl, hpasses result hkeeps⟩
  · exact ⟨_, rfl, hpasses _ hfirst⟩

/-! ## Registers regressed after every push -/

/-- Samples in the order of their times. -/
def Sample.NoLater (s s' : Sample R) : Prop := s.t ≤ s'.t

instance (s s' : Sample R) : Decidable (s.NoLater s') := inferInstanceAs (Decidable (_ ≤ _))

instance : Trans (Sample.NoLater (R := R)) Sample.NoLater Sample.NoLater := ⟨le_trans⟩

/-- What a sample's row has of it. -/
def Sample.seen (s : Sample R) : R × R × R := (s.t, s.offset, s.delay)

def Row.seen (r : Row R) : R × R × R := (r.t, r.offset, r.delay)

namespace SampleRegister

variable {reg : SampleRegister R}

/-- A register on which `regress` is called after every `push`, and anything else at any time;
`recent` pushes await it. Samples come in the order of their times. -/
inductive Attended (std : StdFloat R) : ℕ → SampleRegister R → Prop where
  | new (capacity : ℕ) : Attended std 0 (new capacity)
  | push {reg : SampleRegister R} (h : Attended std 0 reg) (s : Sample R)
      (hs : ∀ last ∈ reg.window.getLast?, last.NoLater s) : Attended std 1 (reg.push s)
  | regress {recent : ℕ} {reg : SampleRegister R} (h : Attended std recent reg) (now : R) :
      Attended std 0 (reg.regress std now).1
  | slewSamples {recent : ℕ} {reg : SampleRegister R} (h : Attended std recent reg)
      (tChange dfreqPpm doffset : R) :
      Attended std recent (reg.slewSamples tChange dfreqPpm doffset)
  | clear {recent : ℕ} {reg : SampleRegister R} (h : Attended std recent reg) :
      Attended std recent reg.clear
  | configure {recent : ℕ} {reg : SampleRegister R} (h : Attended std recent reg)
      (setting : Setting R) : Attended std recent (reg.configure setting)

/-- What such a register holds: a window in time order, and a weight for every sample but those
that await one. -/
structure Holds (recent : ℕ) (reg : SampleRegister R) : Prop where
  tracks : ∃ cap history, Tracks reg cap history
  awaiting : recent ≤ 1
  weighted : reg.Weighted recent
  timed : reg.window.Pairwise Sample.NoLater

theorem push_timed {cap : ℕ} {history : List (Sample R)} (ht : Tracks reg cap history)
    (htimed : reg.window.Pairwise Sample.NoLater) {s : Sample R}
    (hs : ∀ last ∈ reg.window.getLast?, last.NoLater s) :
    (reg.push s).window.Pairwise Sample.NoLater := by
  obtain ⟨k, -, hwindow, -⟩ := push_parallel ht s
  rw [hwindow]
  refine List.Pairwise.sublist (List.drop_sublist k _) (List.isChain_iff_pairwise.mp ?_)
  refine List.isChain_append.mpr ⟨List.isChain_iff_pairwise.mpr htimed, .singleton s, ?_⟩
  rintro last hlast _ ⟨⟩
  exact hs last hlast

theorem regress_window (reg : SampleRegister R) (std : StdFloat R) (now : R) :
    (reg.regress std now).1.window = reg.window := by
  unfold regress
  split
  · rfl
  · split <;> rfl

/-- **What a register regressed after every push holds.** -/
theorem Attended.holds {std : StdFloat R} {recent : ℕ} (h : Attended std recent reg) :
    Holds recent reg := by
  induction h with
  | new capacity =>
    exact ⟨⟨_, _, new_tracks capacity⟩, Nat.zero_le 1,
      ⟨fun hfor => absurd rfl hfor, fun hfor => absurd rfl hfor⟩, List.Pairwise.nil⟩
  | push h s hs ih =>
    obtain ⟨⟨cap, history, ht⟩, -, hw, htimed⟩ := ih
    exact ⟨⟨cap, _, push_tracks ht s⟩, le_refl 1, push_weighted ht hw s, push_timed ht htimed hs⟩
  | regress h now ih =>
    obtain ⟨⟨cap, history, ht⟩, hrecent, hw, htimed⟩ := ih
    refine ⟨⟨cap, _, regress_tracks ht std now⟩, Nat.zero_le 1,
      regress_weighted std ht (hw.mono hrecent) now, ?_⟩
    rw [regress_window]
    exact htimed
  | slewSamples h tChange dfreqPpm doffset ih =>
    obtain ⟨⟨cap, history, ht⟩, hrecent, hw, htimed⟩ := ih
    refine ⟨⟨cap, _, slewSamples_tracks ht tChange dfreqPpm doffset⟩, hrecent,
      slewSamples_weighted ht.live hw tChange dfreqPpm doffset, ?_⟩
    rw [window_slewSamples ht.live, List.pairwise_map]
    exact htimed
  | clear h ih =>
    obtain ⟨⟨cap, history, ht⟩, hrecent, -, -⟩ := ih
    exact ⟨⟨cap, _, clear_tracks ht⟩, hrecent, clear_weighted _ _, List.Pairwise.nil⟩
  | configure h setting ih =>
    obtain ⟨⟨cap, history, ht⟩, hrecent, hw, htimed⟩ := ih
    refine ⟨⟨cap, history, configure_tracks ht setting⟩, hrecent, configure_weighted hw setting, ?_⟩
    rw [configure_window]
    exact htimed

/-! ## The regression -/

/-- What the regression finally fits, and its fit. -/
def fitted (std : StdFloat R) (reg : SampleRegister R) (now : R) : Option (List (Row R) × Fit R) :=
  match reg.minDelay with
  | none => none
  | some minDelay =>
    let floor := max (minDelay * reg.weightFloorRatio) 1e-9
    let rows := (reg.syncWeights minDelay floor).rows std
    (wlsFit rows).bind fun fit => survivors std reg now rows fit

/-- A regression reports of what it finally fits. -/
theorem regress_eq_report (std : StdFloat R) (reg : SampleRegister R) (now : R)
    (hlen : 3 ≤ reg.len) {minDelay : R} (hmin : reg.minDelay = some minDelay) :
    (reg.regress std now).2 = (reg.fitted std now).map ((reg.syncWeights minDelay
      (max (minDelay * reg.weightFloorRatio) 1e-9)).report std minDelay now) := by
  unfold regress fitted
  rw [if_neg (by omega), hmin]
  dsimp only
  rw [regressRows_eq, Option.map_bind]
  rfl

/-- With the density weighting off, the rows are the window's samples. -/
theorem rows_seen {cap : ℕ} {history : List (Sample R)} (ht : Tracks reg cap history)
    (std : StdFloat R) (hdensity : reg.slopeDensityWeighting = false) :
    (reg.rows std).map Row.seen = reg.window.map Sample.seen := by
  have hfst : (reg.window.zip reg.liveWeights).map Prod.fst = reg.window :=
    List.map_fst_zip (length_liveWeights ht).ge
  rw [rows_eq reg std hdensity, List.map_map]
  conv_rhs => rw [← hfst, List.map_map]
  rfl

theorem rows_fittable {cap : ℕ} {history : List (Sample R)} (ht : Tracks reg cap history)
    (std : StdFloat R) (hdensity : reg.slopeDensityWeighting = false) (hlen : 3 ≤ reg.len)
    (hw : ∀ w ∈ reg.liveWeights, 1e-6 ≤ w) : Fittable (reg.rows std) where
  weight r hr := by
    rw [rows_eq reg std hdensity] at hr
    obtain ⟨⟨s, w⟩, hp, rfl⟩ := List.mem_map.mp hr
    exact lt_of_lt_of_le (by norm_num) (hw w (List.of_mem_zip hp).2)
  len := by
    rw [← List.length_map (f := Row.seen), rows_seen ht std hdensity, List.length_map,
      SampleRegister.window, List.length_drop]
    exact hlen

/-- Of rows in time order, the span is the time from the first to the last. -/
theorem spanOf_timed {used : List (Row R)} (htimed : used.Pairwise fun r r' => r.t ≤ r'.t)
    (hlen : 0 < used.length) :
    ∃ first last, used.head? = some first ∧ used.getLast? = some last ∧
      spanOf used = last.t - first.t := by
  obtain ⟨first, rest, rfl⟩ := List.exists_cons_of_length_pos hlen
  obtain ⟨last, hlast⟩ : ∃ last, (first :: rest).getLast? = some last :=
    ⟨_, List.getLast?_eq_getLast_of_ne_nil (List.cons_ne_nil first rest)⟩
  have hle : first.t ≤ last.t := by
    rcases List.mem_cons.mp (List.mem_of_getLast? hlast) with rfl | hmem
    · exact le_refl _
    · exact (List.pairwise_cons.mp htimed).1 last hmem
  refine ⟨first, last, rfl, hlast, ?_⟩
  unfold spanOf
  rw [hlast]
  exact max_eq_left (sub_nonneg.mpr hle)

/-- **The present can never be voted away.** A regression of at least three samples succeeds, and
what it finally fits is some of the window in its order, the three newest samples among it. -/
theorem newest_always_fitted {std : StdFloat R} {recent : ℕ} (h : Attended std recent reg)
    (hdensity : reg.slopeDensityWeighting = false) (hlen : 3 ≤ reg.len) (now : R) :
    ∃ used fit e, reg.fitted std now = some (used, fit) ∧ wlsFit used = some fit ∧
      (reg.regress std now).2 = some e ∧
      List.Sublist (used.map Row.seen) (reg.window.map Sample.seen) ∧
      used.Pairwise (fun r r' => r.t ≤ r'.t) ∧
      (newest reg.window).map Sample.seen <:+ used.map Row.seen ∧
      e.nUsed = used.length ∧ 3 ≤ e.nUsed ∧
      (∃ first last, used.head? = some first ∧ used.getLast? = some last ∧
        e.span = last.t - first.t) ∧
      (e.freqPpm.isSome = true ↔ 4 ≤ e.nUsed ∧ 8 ≤ e.span) := by
  obtain ⟨⟨cap, history, ht⟩, hrecent, hw, htimed⟩ := h.holds
  obtain ⟨minDelay, hmin, -⟩ := regress_of_tracks std ht hlen now
  let synced := reg.syncWeights minDelay (max (minDelay * reg.weightFloorRatio) 1e-9)
  have hsynced : Tracks synced cap history := syncWeights_tracks ht _ _
  have hrows : Fittable (synced.rows std) := rows_fittable hsynced std hdensity hlen
    (syncWeights_weighted ht (hw.mono hrecent) _ _)
  have hseen : (synced.rows std).map Row.seen = reg.window.map Sample.seen :=
    rows_seen hsynced std hdensity
  obtain ⟨first, hfirst⟩ := wlsFit_isSome hrows.weight (by have := hrows.len; omega)
  obtain ⟨⟨used, fit⟩, hsurvive, hkeeps⟩ := survivors_keeps std reg now hrows hfirst
  have hused := hkeeps.fittable hrows
  have hfitted : reg.fitted std now = some (used, fit) := by
    unfold fitted
    rw [hmin]
    show (wlsFit (synced.rows std)).bind _ = _
    rw [hfirst]
    exact hsurvive
  have hsub : List.Sublist (used.map Row.seen) (reg.window.map Sample.seen) := by
    rw [← hseen]
    exact hkeeps.sublist.map Row.seen
  have husedTimed : used.Pairwise fun r r' => r.t ≤ r'.t := by
    have hpairs : (reg.window.map Sample.seen).Pairwise fun a b => a.1 ≤ b.1 :=
      List.pairwise_map.mpr htimed
    have husedPairs : (used.map Row.seen).Pairwise fun a b => a.1 ≤ b.1 := hpairs.sublist hsub
    rw [List.pairwise_map] at husedPairs
    exact husedPairs
  have hreport := regress_eq_report std reg now hlen hmin
  rw [hfitted, Option.map_some] at hreport
  refine ⟨used, fit, _, hfitted, hkeeps.fit, hreport, hsub, husedTimed, ?_, rfl, hused.len,
    spanOf_timed husedTimed (by have := hused.len; omega), ?_⟩
  · rw [← newest_map, ← hseen, newest_map]
    exact hkeeps.newest.map Row.seen
  · have height : (8.0 : R) = 8 := by norm_num
    show Option.isSome (if 4 ≤ used.length ∧ 8.0 ≤ spanOf used then some (fit.b * 1e6) else none) =
      true ↔ 4 ≤ used.length ∧ 8 ≤ spanOf used
    rw [height]
    split
    · next hlong => exact iff_of_true rfl hlong
    · next hshort => exact iff_of_false Bool.false_ne_true hshort

/-! ### Twelve samples, the twelfth not yet regressed -/

/-- The last sample pushed is the last of the window. -/
theorem getLast?_window_push {cap : ℕ} {history : List (Sample R)} (ht : Tracks reg cap history)
    (s : Sample R) : (reg.push s).window.getLast? = some s := by
  obtain ⟨k, hk, hwindow, -⟩ := push_parallel ht s
  rw [hwindow, List.getLast?_drop, List.getLast?_concat, if_neg]
  rw [List.length_append, List.length_singleton]
  omega

/-- Samples in the order of their times may all be attended to. -/
theorem Attended.foldl {std : StdFloat R} (h : Attended std 0 reg) {samples : List (Sample R)}
    (htimed : (reg.window.getLast?.toList ++ samples).IsChain Sample.NoLater) :
    Attended std 0 (samples.foldl (attend std) reg) := by
  induction samples generalizing reg with
  | nil => exact h
  | cons s samples ih =>
    obtain ⟨⟨cap, history, ht⟩, -⟩ := h.holds
    obtain ⟨-, hlater, hs⟩ := List.isChain_append.mp htimed
    refine ih (.regress (.push h s ?_) s.t) ?_
    · intro last hlast
      refine hs last ?_ s rfl
      rw [Option.mem_def.mp hlast]
      rfl
    · rw [attend, regress_window, getLast?_window_push ht]
      exact hlater

def twelfthPushed : SampleRegister ℚ :=
  (((List.range 11).map spikedSample).foldl (attend idFloat) (new 16)).push (spikedSample 11)

/-- The window and the trim take five samples away, and what is left has the three newest. -/
theorem newest_always_fitted_twelve :
    ∃ used fit e, twelfthPushed.fitted idFloat 24 = some (used, fit) ∧
      (twelfthPushed.regress idFloat 24).2 = some e ∧ used.length = 7 ∧
      [spikedSample 9, spikedSample 10, spikedSample 11].map Sample.seen <:+ used.map Row.seen ∧
      e.span = 14 ∧ e.freqPpm.isSome = true := by
  have hrun : (twelfthPushed.regress idFloat 24).2.map (fun e => (e.nUsed, e.span)) =
      some (7, 14) := by
    unfold regress regressRows trimSpikes spikeKeepMask spikeThresholdFrom
    simp only [selectNth_eq]
    decide +kernel
  have hattended : Attended idFloat 1 twelfthPushed :=
    .push (.foldl (.new 16) (by decide +kernel)) _ (by decide +kernel)
  obtain ⟨used, fit, e, hfitted, -, he, -, -, hnewest, hn, -, -, hfreq⟩ :=
    newest_always_fitted hattended (by decide +kernel) (by decide +kernel) 24
  have hwindow : newest twelfthPushed.window =
      [spikedSample 9, spikedSample 10, spikedSample 11] := by decide +kernel
  rw [he] at hrun
  obtain ⟨hused, hspan⟩ := Prod.mk.inj (Option.some.inj hrun)
  rw [hwindow] at hnewest
  refine ⟨used, fit, e, hfitted, he, hn.symm.trans hused, hnewest, hspan, hfreq.mpr ?_⟩
  rw [hused, hspan]
  norm_num

end SampleRegister

end RustyTime
