import Mathlib.Data.List.Basic

/-!
# Sets of positions as bit masks

A machine word as the set of the positions whose bit is set, built by `|=` over a list.

* `and_shift_ne_zero` — the test of one bit
* `getLsbD_foldl_or`, `getLsbD_foldl_or_zipIdx` — the bits a loop of `|=` has set
-/

namespace Infra.Mask

variable {w : ℕ} {α : Type*}

/-- `x & (1 << i) != 0`. -/
theorem and_shift_ne_zero (x : BitVec w) {i : ℕ} (hi : i < w) :
    (x &&& 1#w <<< i != 0#w) = x.getLsbD i := by
  rw [← BitVec.twoPow_eq, BitVec.and_twoPow]
  have hone : BitVec.twoPow w i ≠ 0#w := by
    intro hzero
    have hbit := congrArg (fun y => BitVec.getLsbD y i) hzero
    simp [hi] at hbit
  cases hx : x.getLsbD i <;> simp [hone]

/-- Setting the bits of the positions that pass a test. -/
theorem getLsbD_foldl_or (p : α → Bool) (pos : α → ℕ) (xs : List α) (acc : BitVec w) {j : ℕ}
    (hj : j < w) :
    (xs.foldl (fun keep x => if p x then keep ||| 1#w <<< pos x else keep) acc).getLsbD j
      = (acc.getLsbD j || xs.any fun x => p x && pos x == j) := by
  induction xs generalizing acc with
  | nil => simp
  | cons x xs ih =>
    rw [List.foldl_cons, ih, List.any_cons]
    cases hp : p x with
    | false => simp
    | true =>
      rw [if_pos rfl, BitVec.getLsbD_or, ← BitVec.twoPow_eq, BitVec.getLsbD_twoPow]
      have hbit : (decide (pos x < w) && decide (pos x = j)) = (pos x == j) := by
        by_cases hpos : pos x = j <;> simp [hpos, hj]
      rw [hbit, Bool.true_and, Bool.or_assoc]

/-- Over a list with its positions, a bit says whether the element there passes. -/
theorem getLsbD_foldl_or_zipIdx (p : α × ℕ → Bool) (xs : List α) {j : ℕ} (hj : j < w) :
    (xs.zipIdx.foldl (fun keep x => if p x then keep ||| 1#w <<< x.2 else keep) 0#w).getLsbD j
      = xs[j]?.any fun x => p (x, j) := by
  rw [getLsbD_foldl_or p Prod.snd xs.zipIdx 0#w hj, BitVec.getLsbD_zero, Bool.false_or,
    Bool.eq_iff_iff, List.any_eq_true]
  constructor
  · rintro ⟨⟨x, i⟩, hx, hp⟩
    rw [Bool.and_eq_true, beq_iff_eq] at hp
    obtain ⟨hp, rfl⟩ := hp
    rw [List.mem_zipIdx_iff_getElem?] at hx
    rw [hx]
    exact hp
  · intro h
    obtain ⟨x, hx⟩ : ∃ x, xs[j]? = some x := by
      cases hx : xs[j]? with
      | none => rw [hx] at h; cases h
      | some x => exact ⟨x, rfl⟩
    have hp : p (x, j) = true := by rwa [hx] at h
    refine ⟨(x, j), List.mem_zipIdx_iff_getElem?.mpr hx, ?_⟩
    simp [hp]

end Infra.Mask
