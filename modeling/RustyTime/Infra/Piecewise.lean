import Mathlib.Algebra.Order.Field.Basic
import Mathlib.Algebra.BigOperators.Group.List.Basic
import Mathlib.Tactic.Ring

/-!
# Integrals of a piecewise constant rate

A rate that holds a value over each of some intervals, integrated over `[a, b]`: each interval
counts with the length of its part inside `[a, b]`.

* `integral_of_ended` — what has ended by `b` integrates alike over any later bound
* `integral_append_after` — an interval that starts at or after `b` adds nothing
* `integral_append_within` — one inside `[a, b]` adds its whole length
-/

namespace RustyTime.Piecewise

set_option linter.unusedSectionVars false

/-- A rate over an interval. -/
structure Segment (R : Type) where
  start : R
  stop : R
  rate : R

variable {R : Type} [Field R] [LinearOrder R]

/-- The nearest point of `[a, b]`. -/
def clip (a b x : R) : R := max a (min x b)

/-- The rate times the length of the interval inside `[a, b]`. -/
def Segment.over (seg : Segment R) (a b : R) : R :=
  seg.rate * (clip a b seg.stop - clip a b seg.start)

/-- The integral of the rate over `[a, b]`. -/
def integral (segs : List (Segment R)) (a b : R) : R := (segs.map fun seg => seg.over a b).sum

variable {segs : List (Segment R)} {seg : Segment R} {a b c : R}

theorem clip_of_le {x : R} (h : x ≤ b) : clip a b x = max a x := by
  rw [clip, min_eq_left h]

theorem clip_of_ge {x : R} (h : b ≤ x) : clip a b x = max a b := by
  rw [clip, min_eq_right h]

theorem integral_append (segs rest : List (Segment R)) (a b : R) :
    integral (segs ++ rest) a b = integral segs a b + integral rest a b := by
  rw [integral, List.map_append, List.sum_append]
  rfl

theorem integral_singleton (seg : Segment R) (a b : R) : integral [seg] a b = seg.over a b := by
  rw [integral, List.map_singleton, List.sum_singleton]

/-- The integral over a point. -/
theorem integral_self (segs : List (Segment R)) (a : R) : integral segs a a = 0 := by
  refine List.sum_eq_zero ?_
  intro x hx
  obtain ⟨seg, -, rfl⟩ := List.mem_map.mp hx
  have hclip : ∀ x : R, clip a a x = a := fun x => max_eq_left (min_le_right x a)
  rw [Segment.over, hclip, hclip, sub_self, mul_zero]

/-- The integral of a zero rate. -/
theorem integral_of_rate_eq_zero (h : ∀ seg ∈ segs, seg.rate = 0) : integral segs a b = 0 := by
  refine List.sum_eq_zero ?_
  intro x hx
  obtain ⟨seg, hseg, rfl⟩ := List.mem_map.mp hx
  rw [Segment.over, h seg hseg, zero_mul]

/-- What has ended by `b` integrates alike over a later bound. -/
theorem integral_of_ended (h : ∀ seg ∈ segs, seg.start ≤ b ∧ seg.stop ≤ b) (hbc : b ≤ c) :
    integral segs a c = integral segs a b := by
  unfold integral
  congr 1
  refine List.map_congr_left ?_
  intro seg hseg
  obtain ⟨hstart, hstop⟩ := h seg hseg
  rw [Segment.over, Segment.over, clip_of_le (hstop.trans hbc), clip_of_le (hstart.trans hbc),
    clip_of_le hstop, clip_of_le hstart]

/-- An interval after `b` adds nothing. -/
theorem integral_append_after (hstart : b ≤ seg.start) (hstop : b ≤ seg.stop) :
    integral (segs ++ [seg]) a b = integral segs a b := by
  rw [integral_append, integral_singleton, Segment.over, clip_of_ge hstart, clip_of_ge hstop,
    sub_self, mul_zero, add_zero]

/-- An interval inside `[a, b]` adds its whole length. -/
theorem integral_append_within (ha : a ≤ seg.start) (hab : a ≤ seg.stop) (hstart : seg.start ≤ b)
    (hstop : seg.stop ≤ b) :
    integral (segs ++ [seg]) a b = integral segs a b + seg.rate * (seg.stop - seg.start) := by
  rw [integral_append, integral_singleton, Segment.over, clip_of_le hstart, clip_of_le hstop,
    max_eq_right ha, max_eq_right hab]

end RustyTime.Piecewise
