import Mathlib.Algebra.Order.Field.Basic
import Mathlib.Tactic.Linarith
import Mathlib.Tactic.Ring

/-!
# Token buckets

A bucket of `level` tokens, last refilled at `last`, that started full at `first` and has paid
out `spent` tokens since. Refilling at `rate` up to `burst` and paying out whole tokens keep
`Within`, which bounds what was paid out by the burst and the time gone by.
-/

namespace Infra.TokenBucket

set_option linter.unusedSectionVars false

variable {R : Type*} [Field R] [LinearOrder R] [IsStrictOrderedRing R]

/-- What was paid out and what is left came from the burst and the refill. -/
structure Within (burst rate first spent level last : R) : Prop where
  nonneg : 0 ≤ level
  bound : spent + level ≤ burst + rate * (last - first)

variable {burst rate first spent level last now : R}

theorem Within.start (hb : 0 ≤ burst) : Within burst rate first 0 burst first :=
  ⟨hb, by simp⟩

/-- The refill of a bucket: time passed at `rate`, cut off at `burst`. -/
theorem Within.refill (h : Within burst rate first spent level last) (hb : 0 ≤ burst)
    (hr : 0 ≤ rate) (hnow : last ≤ now) :
    Within burst rate first spent (min (level + max (now - last) 0 * rate) burst) now := by
  have helapsed : max (now - last) 0 = now - last := max_eq_left (by linarith)
  have hadd : 0 ≤ (now - last) * rate := mul_nonneg (by linarith) hr
  rw [helapsed]
  refine ⟨le_min (by linarith [h.nonneg]) hb, ?_⟩
  calc spent + min (level + (now - last) * rate) burst
      ≤ spent + (level + (now - last) * rate) := by gcongr; exact min_le_left _ _
    _ = (spent + level) + (now - last) * rate := by ring
    _ ≤ (burst + rate * (last - first)) + (now - last) * rate := by linarith [h.bound]
    _ = burst + rate * (now - first) := by ring

/-- Paying out one token. -/
theorem Within.spend (h : Within burst rate first spent level last) (hl : 1 ≤ level) :
    Within burst rate first (spent + 1) (level - 1) last :=
  ⟨by linarith, by linarith [h.bound]⟩

/-- **What a bucket paid out is bounded by its burst and the time gone by.** -/
theorem Within.spent_le (h : Within burst rate first spent level last) (hr : 0 ≤ rate)
    (hnow : last ≤ now) : spent ≤ burst + rate * (now - first) := by
  have hgap : 0 ≤ rate * (now - last) := mul_nonneg hr (by linarith)
  have hsplit : rate * (now - first) = rate * (last - first) + rate * (now - last) := by ring
  linarith [h.nonneg, h.bound]

end Infra.TokenBucket
