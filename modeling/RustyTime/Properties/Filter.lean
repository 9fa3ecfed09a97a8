import Mathlib.Data.List.MinMax
import Mathlib.Data.List.DropRight
import RustyTime.Core.Filter

/-!
# The sample register is a faithful sliding window

The samples pushed since the last `clear`, with their offsets as `slew_samples` re-expressed
them, are the register's history; the window is its last `capacity` samples. `Tracks` says so
of a register, with the bounds on its storage and the cached minimum delay.

* `push_tracks`, `slewSamples_tracks`, `clear_tracks`, `regress_tracks` — one step each
* `run_window` — every run
-/

namespace RustyTime.SampleRegister

set_option linter.unusedSectionVars false

variable {R : Type} [Field R] [LinearOrder R] {reg : SampleRegister R} {cap : ℕ}
  {history : List (Sample R)}

/-! ## What a window is -/

/-- The last `cap` of some samples. -/
def lastN (cap : ℕ) (history : List (Sample R)) : List (Sample R) :=
  history.drop (history.length - cap)

/-- A sample with its offset moved, as the doc of `slew_samples` puts it. -/
def reexpress (tChange dfreqPpm doffset : R) (s : Sample R) : Sample R :=
  { s with offset := s.offset - (doffset + dfreqPpm * 1e-6 * (s.t - tChange)) }

/-- The smallest delay, infinite for no sample. -/
def minimumDelay (window : List (Sample R)) : WithTop R := (window.map fun s => s.delay).minimum

theorem length_lastN (cap : ℕ) (history : List (Sample R)) :
    (lastN cap history).length = min history.length cap := by
  rw [lastN, List.length_drop]
  omega

theorem lastN_map (f : Sample R → Sample R) :
    lastN cap (history.map f) = (lastN cap history).map f := by
  rw [lastN, lastN, List.length_map, List.map_drop]

theorem lastN_of_le (h : history.length ≤ cap) : lastN cap history = history := by
  rw [lastN, Nat.sub_eq_zero_of_le h, List.drop_zero]

/-- A window with room takes one more sample. -/
theorem lastN_concat_of_lt (s : Sample R) (h : history.length < cap) :
    lastN cap (history ++ [s]) = lastN cap history ++ [s] := by
  rw [lastN_of_le (by rw [List.length_append, List.length_singleton]; omega), lastN_of_le h.le]

/-- A full window takes one more sample and loses its first. -/
theorem lastN_concat_of_le (s : Sample R) (hc : 0 < cap) (h : cap ≤ history.length) :
    lastN cap (history ++ [s]) = (lastN cap history).drop 1 ++ [s] := by
  have hlen : (history ++ [s]).length - cap = history.length - cap + 1 := by
    simp only [List.length_append, List.length_singleton]
    omega
  rw [lastN, hlen, List.drop_append_of_le_length (by omega), lastN, List.drop_drop]

theorem slewSample_eq_reexpress (tChange dfreqPpm doffset : R) :
    slewSample tChange dfreqPpm doffset = reexpress tChange dfreqPpm doffset := by
  funext s
  unfold slewSample reexpress
  by_cases hf : dfreqPpm = 0 <;> by_cases ho : doffset = 0 <;> simp [hf, ho]

/-! ## The cached minimum -/

theorem minimumDelay_cons (s : Sample R) (w : List (Sample R)) :
    minimumDelay (s :: w) = min (s.delay : WithTop R) (minimumDelay w) := by
  rw [minimumDelay, List.map_cons, List.minimum_cons]
  rfl

theorem minimumDelay_concat (w : List (Sample R)) (s : Sample R) :
    minimumDelay (w ++ [s]) = min (minimumDelay w) (s.delay : WithTop R) := by
  induction w with
  | nil => simp [minimumDelay, List.minimum_cons]
  | cons a w ih => rw [List.cons_append, minimumDelay_cons, ih, minimumDelay_cons, min_assoc]

/-- The scan of `push` finds the minimum. -/
theorem lowestDelay_eq (w : List (Sample R)) : lowestDelay w = minimumDelay w := by
  induction w using List.reverseRecOn with
  | nil => rfl
  | append_singleton w s ih =>
    rw [lowestDelay, List.foldl_append, minimumDelay_concat, ← ih]
    rfl

theorem minimumDelay_map {f : Sample R → Sample R} (hf : ∀ s, (f s).delay = s.delay)
    (w : List (Sample R)) : minimumDelay (w.map f) = minimumDelay w := by
  rw [minimumDelay, List.map_map, minimumDelay]
  congr 1
  exact List.map_congr_left fun s _ => hf s

/-! ## The invariant -/

/-- **The register holds the last `cap` samples of its history.** -/
structure Tracks (reg : SampleRegister R) (cap : ℕ) (history : List (Sample R)) : Prop where
  capacity : reg.capacity = cap
  pos : 3 ≤ cap
  window : reg.window = lastN cap history
  head : reg.head < cap
  live : reg.head ≤ reg.samples.length
  weights : reg.weights.length = reg.samples.length
  minDelay : reg.minDelay = minimumDelay reg.window

theorem Tracks.length_samples (h : Tracks reg cap history) :
    reg.samples.length = reg.head + min history.length cap := by
  have hlen := congrArg List.length h.window
  rw [SampleRegister.window, List.length_drop, length_lastN] at hlen
  have := h.live
  omega

theorem new_tracks (capacity : ℕ) :
    Tracks (new capacity : SampleRegister R) (max capacity 3) [] where
  capacity := rfl
  pos := le_max_right _ _
  window := by simp [SampleRegister.window, new, lastN]
  head := by simp [new]
  live := by simp [new]
  weights := rfl
  minDelay := rfl

/-! ## One step each -/

theorem clear_tracks (h : Tracks reg cap history) : Tracks reg.clear cap [] where
  capacity := h.capacity
  pos := h.pos
  window := by simp [SampleRegister.window, clear, lastN]
  head := by have := h.pos; simp only [clear]; omega
  live := by simp [clear]
  weights := rfl
  minDelay := rfl

/-- `slew_samples` re-expresses the window and leaves the rest alone. -/
theorem window_slewSamples (hl : reg.head ≤ reg.samples.length) (tChange dfreqPpm doffset : R) :
    (reg.slewSamples tChange dfreqPpm doffset).window
      = reg.window.map (reexpress tChange dfreqPpm doffset) := by
  have hlen : (reg.samples.take reg.head).length = reg.head := by simpa using hl
  rw [SampleRegister.window, slewSamples, ← slewSample_eq_reexpress]
  show List.drop reg.head (_ ++ _) = _
  rw [List.drop_append, hlen, Nat.sub_self, List.drop_zero,
    List.drop_eq_nil_of_le (le_of_eq hlen), List.nil_append]
  rfl

theorem slewSamples_tracks (h : Tracks reg cap history) (tChange dfreqPpm doffset : R) :
    Tracks (reg.slewSamples tChange dfreqPpm doffset) cap
      (history.map (reexpress tChange dfreqPpm doffset)) where
  capacity := h.capacity
  pos := h.pos
  window := by rw [window_slewSamples h.live, h.window, lastN_map]
  head := h.head
  live := by
    have := h.live
    simp only [slewSamples, List.length_append, List.length_take, List.length_map,
      List.length_drop]
    omega
  weights := by
    have := h.live
    have := h.weights
    simp only [slewSamples, List.length_append, List.length_take, List.length_map,
      List.length_drop]
    omega
  minDelay := by
    have hdelay : ∀ s, (reexpress tChange dfreqPpm doffset s).delay = s.delay := fun _ => rfl
    rw [window_slewSamples h.live, minimumDelay_map hdelay]
    exact h.minDelay

theorem syncWeights_tracks (h : Tracks reg cap history) (minDelay floor : R) :
    Tracks (reg.syncWeights minDelay floor) cap history where
  capacity := h.capacity
  pos := h.pos
  window := h.window
  head := h.head
  live := h.live
  weights := by
    rw [syncWeights, List.length_mapIdx]
    exact h.weights
  minDelay := h.minDelay

theorem regress_tracks (h : Tracks reg cap history) (std : StdFloat R) (now : R) :
    Tracks (reg.regress std now).1 cap history := by
  unfold regress
  split
  · exact h
  · split
    · exact h
    · exact syncWeights_tracks h _ _

/-- The eviction drops the first sample of the window, and rescans when that was a smallest. -/
theorem evict_spec {e : Sample R} {w : List (Sample R)} (hw : reg.window = e :: w) :
    reg.evict.window = w ∧ reg.evict.head = reg.head + 1 ∧ reg.evict.samples = reg.samples ∧
      reg.evict.weights = reg.weights ∧ reg.evict.capacity = reg.capacity ∧
      reg.evict.minDelay
        = if (e.delay : WithTop R) ≤ reg.minDelay then minimumDelay w else reg.minDelay := by
  have hget : reg.samples[reg.head]? = some e := by
    have : reg.window[0]? = some e := by rw [hw]; rfl
    rwa [SampleRegister.window, List.getElem?_drop, Nat.add_zero] at this
  have hdrop : reg.samples.drop (reg.head + 1) = w := by
    rw [← List.drop_drop]
    show List.drop 1 reg.window = w
    rw [hw]
    rfl
  unfold evict
  rw [hget]
  dsimp only
  rw [hdrop, lowestDelay_eq]
  split <;> exact ⟨hdrop, rfl, rfl, rfl, rfl, rfl⟩

/-- The compaction moves the window to the front and changes nothing in it. -/
theorem compact_spec (hl : reg.head ≤ reg.samples.length)
    (hwt : reg.weights.length = reg.samples.length) (hc : 0 < reg.capacity) :
    reg.compact.window = reg.window ∧ reg.compact.head < reg.capacity ∧
      reg.compact.head ≤ reg.compact.samples.length ∧
      reg.compact.weights.length = reg.compact.samples.length ∧
      reg.compact.capacity = reg.capacity ∧ reg.compact.minDelay = reg.minDelay := by
  unfold compact
  split
  · refine ⟨List.drop_zero, hc, Nat.zero_le _, ?_, rfl, rfl⟩
    simp only [List.length_drop, hwt]
  · exact ⟨rfl, by omega, hl, hwt, rfl, rfl⟩

/-- Losing a sample above the minimum does not move the minimum. -/
theorem minimumDelay_of_lt {e : Sample R} {w : List (Sample R)}
    (h : ¬ (e.delay : WithTop R) ≤ minimumDelay (e :: w)) :
    minimumDelay (e :: w) = minimumDelay w := by
  rw [minimumDelay_cons] at h ⊢
  rcases min_choice (e.delay : WithTop R) (minimumDelay w) with he | hw
  · exact absurd he.ge h
  · exact hw

/-- **`push` appends the sample to the window, whether or not it evicts, compacts or rescans.** -/
theorem push_tracks (h : Tracks reg cap history) (s : Sample R) :
    Tracks (reg.push s) cap (history ++ [s]) := by
  let grown : SampleRegister R :=
    { reg with samples := reg.samples ++ [s], weights := reg.weights ++ [0] }
  have hlen := h.length_samples
  have hgrown : grown.window = reg.window ++ [s] := by
    show List.drop reg.head (reg.samples ++ [s]) = _
    rw [List.drop_append_of_le_length h.live]
    rfl
  have hpos := h.pos
  -- what is left to show once the register before the compaction is known
  have hfinish : ∀ r : SampleRegister R, r.window = lastN cap (history ++ [s]) →
      r.head ≤ r.samples.length → r.weights.length = r.samples.length → r.capacity = cap →
      min r.minDelay (s.delay : WithTop R) = minimumDelay r.window →
      Tracks { r.compact with minDelay := min r.compact.minDelay (s.delay : WithTop R) } cap
        (history ++ [s]) := by
    intro r hw hl hwt hc hm
    obtain ⟨h1, h2, h3, h4, h5, h6⟩ := compact_spec hl hwt (by omega)
    refine ⟨h5.trans hc, hpos, h1.trans hw, by rw [← hc]; exact h2, h3, h4, ?_⟩
    show min r.compact.minDelay _ = minimumDelay r.compact.window
    rw [h6, h1, hm]
  have hpush : reg.push s =
      let r := if grown.capacity < grown.samples.length - grown.head then grown.evict else grown
      { r.compact with minDelay := min r.compact.minDelay (s.delay : WithTop R) } := rfl
  have hgl : grown.samples.length = reg.samples.length + 1 := by simp [grown]
  have hgw : grown.weights.length = grown.samples.length := by simp [grown, h.weights]
  rw [hpush]
  dsimp only
  by_cases hfull : grown.capacity < grown.samples.length - grown.head
  · -- a full window: its first sample leaves
    rw [if_pos hfull]
    have hcap : grown.capacity = cap := h.capacity
    have hghead : grown.head = reg.head := rfl
    have hge : cap ≤ history.length := by omega
    obtain ⟨e, w, hw⟩ : ∃ e w, reg.window = e :: w := by
      cases hw : reg.window with
      | nil =>
        have := congrArg List.length (h.window.symm.trans hw)
        rw [length_lastN, List.length_nil] at this
        omega
      | cons e w => exact ⟨e, w, rfl⟩
    obtain ⟨h1, h2, h3, h4, h5, h6⟩ := evict_spec (hgrown.trans (by rw [hw]; rfl) :
      grown.window = e :: (w ++ [s]))
    refine hfinish grown.evict ?_ (by rw [h2, h3]; omega) (by rw [h3, h4]; exact hgw)
      (h5.trans hcap) ?_
    · rw [h1, lastN_concat_of_le s (by omega) hge, ← h.window, hw]
      rfl
    · have hmin : grown.minDelay = minimumDelay (e :: w) := by
        rw [← hw]
        exact h.minDelay
      rw [h1, h6, minimumDelay_concat]
      split
      · rw [min_assoc, min_self]
      · next hlt =>
        rw [hmin] at hlt ⊢
        rw [minimumDelay_of_lt hlt]
  · rw [if_neg hfull]
    have hcap : grown.capacity = cap := h.capacity
    have hghead : grown.head = reg.head := rfl
    refine hfinish grown ?_ (by have := h.live; omega) hgw hcap ?_
    · rw [hgrown, h.window, lastN_concat_of_lt s (by omega)]
    · rw [hgrown, minimumDelay_concat, ← h.minDelay]

/-! ## Every run -/

/-- The operations on a register. -/
inductive Op (R : Type) where
  | push (s : Sample R)
  | slewSamples (tChange dfreqPpm doffset : R)
  | clear
  | regress (now : R)

def step (std : StdFloat R) (reg : SampleRegister R) : Op R → SampleRegister R
  | .push s => reg.push s
  | .slewSamples tChange dfreqPpm doffset => reg.slewSamples tChange dfreqPpm doffset
  | .clear => reg.clear
  | .regress now => (reg.regress std now).1

def run (std : StdFloat R) (reg : SampleRegister R) (ops : List (Op R)) : SampleRegister R :=
  ops.foldl (step std) reg

/-- The samples pushed since the last `clear`, offsets re-expressed. -/
def historyStep (history : List (Sample R)) : Op R → List (Sample R)
  | .push s => history ++ [s]
  | .slewSamples tChange dfreqPpm doffset => history.map (reexpress tChange dfreqPpm doffset)
  | .clear => []
  | .regress _ => history

def historyOf (ops : List (Op R)) : List (Sample R) := ops.foldl historyStep []

theorem step_tracks (std : StdFloat R) (h : Tracks reg cap history) (op : Op R) :
    Tracks (step std reg op) cap (historyStep history op) := by
  cases op with
  | push s => exact push_tracks h s
  | slewSamples tChange dfreqPpm doffset => exact slewSamples_tracks h tChange dfreqPpm doffset
  | clear => exact clear_tracks h
  | regress now => exact regress_tracks h std now

theorem run_tracks (std : StdFloat R) (h : Tracks reg cap history) (ops : List (Op R)) :
    Tracks (run std reg ops) cap (ops.foldl historyStep history) := by
  induction ops generalizing reg history with
  | nil => exact h
  | cons op ops ih => exact ih (step_tracks std h op)

/--
**The register is a faithful sliding window.** After any run the live window is the last
`max capacity 3` samples pushed since the last `clear`, in push order, with re-expressed
offsets; the dead prefix is shorter than that, so the vectors stay below twice it; the weights
are parallel to the samples; and the cached minimum is the window's.
-/
theorem run_window (std : StdFloat R) (capacity : ℕ) (ops : List (Op R)) :
    let reg := run std (new capacity) ops
    reg.window = lastN (max capacity 3) (historyOf ops) ∧
      reg.window.length = min (historyOf ops).length (max capacity 3) ∧
      reg.head < max capacity 3 ∧
      reg.samples.length < 2 * max capacity 3 ∧
      reg.weights.length = reg.samples.length ∧
      reg.minDelay = minimumDelay reg.window := by
  have h := run_tracks std (new_tracks capacity) ops
  refine ⟨h.window, ?_, h.head, ?_, h.weights, h.minDelay⟩
  · rw [h.window, length_lastN]
    rfl
  · have := h.length_samples
    have := h.head
    omega

end RustyTime.SampleRegister
