import Mathlib.Data.List.Sort

/-!
# Order statistics by counting

The `k`-th smallest of a list (counted from 0, with repetitions) passes a downward closed test
exactly when more than `k` of the elements do. No sort is needed to decide it.

* `lt_countP_iff_of_sorted` — for a sorted list
* `lt_countP_iff` — for any list, against its sorted form
-/

namespace Infra.Rank

variable {α : Type*} [LinearOrder α]

/-- In a sorted list the elements that pass come first. -/
theorem lt_countP_iff_of_sorted {p : α → Bool} (hp : ∀ a b, a ≤ b → p b = true → p a = true) :
    ∀ {xs : List α}, xs.Pairwise (· ≤ ·) → ∀ k,
      k < xs.countP p ↔ ∃ m, xs[k]? = some m ∧ p m = true
  | [], _, k => by simp
  | x :: xs, h, k => by
    obtain ⟨hx, hxs⟩ := List.pairwise_cons.mp h
    have ih := lt_countP_iff_of_sorted hp hxs
    cases hpx : p x with
    | false =>
      -- nothing after `x` passes either
      have hnone : ∀ y ∈ x :: xs, ¬p y = true := by
        intro y hy hpy
        rcases List.mem_cons.mp hy with rfl | hy
        · rw [hpx] at hpy
          cases hpy
        · have := hp x y (hx y hy) hpy
          rw [hpx] at this
          cases this
      rw [List.countP_eq_zero.mpr hnone]
      refine iff_of_false (Nat.not_lt_zero k) ?_
      rintro ⟨m, hm, hpm⟩
      exact hnone m (List.mem_of_getElem? hm) hpm
    | true =>
      rw [List.countP_cons_of_pos hpx]
      cases k with
      | zero => exact iff_of_true (Nat.succ_pos _) ⟨x, rfl, hpx⟩
      | succ k => rw [Nat.succ_lt_succ_iff, ih k, List.getElem?_cons_succ]

/-- **The `k`-th smallest passes exactly when more than `k` elements do.** -/
theorem lt_countP_iff {p : α → Bool} (hp : ∀ a b, a ≤ b → p b = true → p a = true)
    (xs : List α) (k : ℕ) :
    k < xs.countP p ↔
      ∃ m, (xs.mergeSort fun x y => decide (x ≤ y))[k]? = some m ∧ p m = true := by
  have hsorted : (xs.mergeSort fun x y => decide (x ≤ y)).Pairwise (· ≤ ·) := by
    have htrans : ∀ a b c : α, decide (a ≤ b) = true → decide (b ≤ c) = true →
        decide (a ≤ c) = true := fun a b c hab hbc =>
      decide_eq_true ((of_decide_eq_true hab).trans (of_decide_eq_true hbc))
    have htotal : ∀ a b : α, (decide (a ≤ b) || decide (b ≤ a)) = true := fun a b => by
      simpa using le_total a b
    exact (List.pairwise_mergeSort htrans htotal xs).imp fun hab => of_decide_eq_true hab
  rw [← lt_countP_iff_of_sorted hp hsorted,
    (List.mergeSort_perm xs fun x y => decide (x ≤ y)).countP_eq]

end Infra.Rank
