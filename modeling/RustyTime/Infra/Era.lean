import Mathlib.Algebra.Order.Field.Basic
import Mathlib.Algebra.Order.Ring.Abs
import Mathlib.Tactic.Linarith
import Mathlib.Tactic.Ring

/-!
# Numbers known up to a period

A counter that wraps tells a number up to its period. Two ways to have the number back: the
candidate nearest a pivot, and the wrapped difference read as a signed word.

* `nearest_eq` — a candidate nearer than every other is found
* `nearest_period` — a number within half a period of the pivot is the nearest of its class
* `toInt_sub_of_emod` — the signed difference of two words is that of the numbers they stand for
-/

namespace Infra.Era

/-! ## The nearest candidate -/

section Nearest

variable {R α : Type*} [Field R] [LinearOrder R]

/-- The first of the candidates nearest the pivot: `first`, then one for every key. -/
def nearest (pivot : R) (candidate : α → R) (first : R) (ks : List α) : R :=
  (ks.foldl (fun (best : R × R) (k : α) =>
    let distance := |candidate k - pivot|
    if distance < best.2 then (candidate k, distance) else best) (first, |first - pivot|)).1

variable {pivot target : R} {candidate : α → R}

/-- One candidate more. -/
theorem nearest_cons (first : R) (k : α) (ks : List α) :
    nearest pivot candidate first (k :: ks) =
      nearest pivot candidate
        (if |candidate k - pivot| < |first - pivot| then candidate k else first) ks := by
  unfold nearest
  rw [List.foldl_cons]
  by_cases h : |candidate k - pivot| < |first - pivot|
  · simp only [if_pos h]
  · simp only [if_neg h]

/-- A target nearer than every candidate to come is kept. -/
theorem nearest_self {ks : List α}
    (hfar : ∀ k ∈ ks, candidate k ≠ target → |target - pivot| < |candidate k - pivot|) :
    nearest pivot candidate target ks = target := by
  induction ks with
  | nil => rfl
  | cons k ks ih =>
    have hrest := ih fun k' hk' => hfar k' (List.mem_cons_of_mem k hk')
    by_cases heq : candidate k = target
    · rw [nearest_cons, heq, ite_self]
      exact hrest
    · rw [nearest_cons, if_neg (lt_asymm (hfar k List.mem_cons_self heq))]
      exact hrest

/-- **A candidate nearer than every other is found.** -/
theorem nearest_eq {first : R} {ks : List α}
    (hmem : first = target ∨ ∃ k ∈ ks, candidate k = target)
    (hfirst : first ≠ target → |target - pivot| < |first - pivot|)
    (hfar : ∀ k ∈ ks, candidate k ≠ target → |target - pivot| < |candidate k - pivot|) :
    nearest pivot candidate first ks = target := by
  induction ks generalizing first with
  | nil =>
    obtain rfl | ⟨k, hk, -⟩ := hmem
    · rfl
    · cases hk
  | cons k ks ih =>
    have hfar' : ∀ k' ∈ ks, candidate k' ≠ target → |target - pivot| < |candidate k' - pivot| :=
      fun k' hk' => hfar k' (List.mem_cons_of_mem k hk')
    by_cases heq : first = target
    · subst heq
      exact nearest_self hfar
    rw [nearest_cons]
    by_cases hk : candidate k = target
    · rw [hk, if_pos (hfirst heq)]
      exact nearest_self hfar'
    -- neither the best so far nor this candidate is the target
    have hrest : ∃ k' ∈ ks, candidate k' = target := by
      obtain h | ⟨k', hk', h⟩ := hmem
      · exact absurd h heq
      · rcases List.mem_cons.mp hk' with rfl | hk'
        · exact absurd h hk
        · exact ⟨k', hk', h⟩
    refine ih (Or.inr hrest) (fun _ => ?_) hfar'
    split
    · exact hfar k List.mem_cons_self hk
    · exact hfirst heq

/-- Within half a period of the pivot, what lies a period away is farther. -/
theorem farther_of_period [IsStrictOrderedRing R] {period x : R}
    (hnear : |target - pivot| < period / 2) (haway : period ≤ |x - target|) :
    |target - pivot| < |x - pivot| := by
  have htri : |x - target| ≤ |x - pivot| + |target - pivot| := by
    have h := abs_sub_le x pivot target
    rwa [abs_sub_comm pivot target] at h
  linarith

/-- Numbers of one class are whole periods apart. -/
theorem period_le_sub [IsStrictOrderedRing R] {period : R} (hpos : 0 < period) (base : R)
    {j k : Int} (hjk : j ≠ k) : period ≤ |base + j * period - (base + k * period)| := by
  have hdiff : base + j * period - (base + k * period) = ((j - k : Int) : R) * period := by
    push_cast
    ring
  have hone : (1 : R) ≤ |((j - k : Int) : R)| := by
    have h : (1 : Int) ≤ |j - k| := Int.one_le_abs (sub_ne_zero.mpr hjk)
    exact_mod_cast h
  rw [hdiff, abs_mul, abs_of_pos hpos]
  exact le_mul_of_one_le_left hpos.le hone

/-- **A number within half a period of the pivot is the nearest of its class.** -/
theorem nearest_period [IsStrictOrderedRing R] {base period : R} {era : Int} {ks : List Int}
    (hmem : era = 0 ∨ era ∈ ks) (hnear : |base + era * period - pivot| < period / 2) :
    nearest pivot (fun k : R => base + k * period) base (ks.map Int.cast) =
      base + era * period := by
  have hpos : 0 < period := by
    have h := (abs_nonneg _).trans_lt hnear
    linarith
  -- no other number of the class is as near
  have hfar (k : Int) (hk : base + k * period ≠ base + era * period) :
      |base + era * period - pivot| < |base + k * period - pivot| :=
    farther_of_period hnear (period_le_sub hpos base fun h => hk (by rw [h]))
  have hbase : base = base + ((0 : Int) : R) * period := by
    rw [Int.cast_zero, zero_mul, add_zero]
  refine nearest_eq ?_ (fun hne => ?_) (fun k hk hne => ?_)
  · obtain rfl | hera := hmem
    · exact Or.inl hbase
    · exact Or.inr ⟨era, List.mem_map_of_mem hera, rfl⟩
  · have hzero := hfar 0 (by rwa [← hbase])
    rwa [← hbase] at hzero
  · obtain ⟨j, -, rfl⟩ := List.mem_map.mp hk
    exact hfar j hne

end Nearest

/-! ## The wrapped difference -/

/-- **The signed difference of two words is that of the numbers they stand for**, as long as it
fits. -/
theorem toInt_sub_of_emod {a b : UInt64} {x y : Int} (ha : (a.toNat : Int) = x % 2 ^ 64)
    (hb : (b.toNat : Int) = y % 2 ^ 64) (hlow : -(2 ^ 63) ≤ x - y) (hhigh : x - y < 2 ^ 63) :
    (a - b).toInt64.toInt = x - y := by
  have hsub : (a - b).toInt64.toInt = (a.toBitVec.toInt - b.toBitVec.toInt).bmod (2 ^ 64) :=
    BitVec.toInt_sub
  have hword (w : UInt64) : w.toBitVec.toInt = (w.toNat : Int).bmod (2 ^ 64) :=
    BitVec.toInt_eq_toNat_bmod w.toBitVec
  have hx : ((a.toNat : Int)).bmod (2 ^ 64) = x.bmod (2 ^ 64) := by
    rw [ha]
    exact Int.emod_bmod x (2 ^ 64)
  have hy : ((b.toNat : Int)).bmod (2 ^ 64) = y.bmod (2 ^ 64) := by
    rw [hb]
    exact Int.emod_bmod y (2 ^ 64)
  rw [hsub, hword, hword, hx, hy, ← Int.sub_bmod]
  exact Int.bmod_eq_of_le (by norm_num; omega) (by norm_num; omega)

end Infra.Era
