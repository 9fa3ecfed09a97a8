import Mathlib.Data.Int.GCD
import Mathlib.Data.List.Rotate
import Mathlib.Data.Nat.Prime.Basic

/-!
# A ring of slots

The `i`th item goes into slot `i % n`, over what was there. Read from slot zero on, the slots hold
the last `n` items, but turned: the oldest is where the next item will go.

* `held_concat` — what a slot holds after one more item
* `inOrder_eq_rotate` — the slots are the last items, turned
* `inOrder_eq_window_iff` — when the turn is not seen, for a prime number of slots
-/

namespace Infra.Slots

variable {α : Type*} {n j : ℕ} {xs : List α}

/-- What slot `j` holds of `xs`: the last item whose index is `j` modulo `n`. -/
def held (n : ℕ) (xs : List α) (j : ℕ) : Option α :=
  if j < xs.length then xs[xs.length - 1 - (xs.length - 1 - j) % n]? else none

/-- The slots from zero on. -/
def inOrder (n : ℕ) (xs : List α) : List α := (List.range n).filterMap (held n xs)

/-- The last `n` items. -/
def window (n : ℕ) (xs : List α) : List α := xs.drop (xs.length - n)

@[simp] theorem held_nil (n j : ℕ) : held n ([] : List α) j = none := by simp [held]

theorem succ_mod_of_ne_zero {d : ℕ} (h : (d + 1) % n ≠ 0) : (d + 1) % n = d % n + 1 := by
  rcases Nat.eq_zero_or_pos n with rfl | hn
  · rw [Nat.mod_zero, Nat.mod_zero]
  · have hlt : d % n < n := Nat.mod_lt d hn
    rw [← Nat.mod_add_mod] at h ⊢
    by_cases hfull : d % n + 1 = n
    · rw [hfull, Nat.mod_self] at h
      exact absurd rfl h
    · exact Nat.mod_eq_of_lt (by omega)

/-- Two numbers of one window that agree modulo its length. -/
theorem eq_of_mod_eq {a b : ℕ} (h : a % n = b % n) (hab : a < b + n) (hba : b < a + n) : a = b := by
  have ha := Nat.div_add_mod a n
  have hb := Nat.div_add_mod b n
  rcases Nat.lt_trichotomy (a / n) (b / n) with hlt | heq | hlt
  · have := Nat.mul_le_mul_left n hlt
    rw [Nat.mul_succ] at this
    omega
  · rw [heq] at ha
    omega
  · have := Nat.mul_le_mul_left n hlt
    rw [Nat.mul_succ] at this
    omega

/-- The last index below `len` that is `j` modulo `n`. -/
theorem lastIndex_mod {len : ℕ} (h : j < len) :
    (len - 1 - (len - 1 - j) % n) % n = j % n := by
  have hdiv := Nat.div_add_mod (len - 1 - j) n
  rw [show len - 1 - (len - 1 - j) % n = j + n * ((len - 1 - j) / n) by omega,
    Nat.add_mul_mod_self_left]

theorem held_concat (hj : j < n) (xs : List α) (x : α) :
    held n (xs ++ [x]) j = if j = xs.length % n then some x else held n xs j := by
  have hlast : j < xs.length + 1 → (j = xs.length % n ↔ (xs.length - j) % n = 0) := by
    intro hlt
    have hmod := lastIndex_mod (n := n) hlt
    rw [Nat.add_sub_cancel, Nat.mod_eq_of_lt hj] at hmod
    constructor
    · intro hhere
      have hle := Nat.mod_le (xs.length - j) n
      have heq := eq_of_mod_eq (n := n) (hmod.trans hhere)
        (by omega) (by have := Nat.mod_lt (xs.length - j) (by omega : 0 < n); omega)
      omega
    · intro hzero
      rw [hzero, Nat.sub_zero] at hmod
      exact hmod.symm
  unfold held
  rw [List.length_append, List.length_singleton, Nat.add_sub_cancel]
  by_cases hlt : j < xs.length + 1
  · rw [if_pos hlt]
    by_cases hhere : j = xs.length % n
    · rw [if_pos hhere, (hlast hlt).1 hhere, Nat.sub_zero, List.getElem?_concat_length]
    · have hne := mt (hlast hlt).2 hhere
      have hlt' : j < xs.length := by
        refine Nat.lt_of_le_of_ne (Nat.le_of_lt_succ hlt) fun heq => hne ?_
        rw [heq, Nat.sub_self, Nat.zero_mod]
      have hstep : xs.length - j = xs.length - 1 - j + 1 := by omega
      rw [hstep] at hne ⊢
      have hle := Nat.mod_le (xs.length - 1 - j) n
      rw [if_neg hhere, if_pos hlt', succ_mod_of_ne_zero hne, List.getElem?_append_left (by omega)]
      congr 1
      omega
  · rw [if_neg hlt, if_neg, if_neg (by omega)]
    rw [Nat.mod_eq_of_lt (by omega)]
    omega

/-! ## The slots in order -/

theorem filterMap_range (n : ℕ) (l : List α) :
    (List.range n).filterMap (fun j => l[j]?) = l.take n := by
  induction n with
  | zero => simp
  | succ n ih =>
    rw [List.range_succ, List.filterMap_append, ih, List.take_add_one]
    cases h : l[n]? with
    | none => simp [h]
    | some x => simp [h]

/-- A ring that is not full yet is in order. -/
theorem inOrder_of_le (h : xs.length ≤ n) : inOrder n xs = xs := by
  have hheld : ∀ j ∈ List.range n, held n xs j = xs[j]? := by
    intro j hj
    rw [List.mem_range] at hj
    unfold held
    split
    · rw [Nat.mod_eq_of_lt (by omega)]
      congr 1
      omega
    · exact (List.getElem?_eq_none (by omega)).symm
  rw [inOrder, List.filterMap_congr hheld, filterMap_range, List.take_of_length_le h]

/-- **The slots are the last items, turned** by how far the next slot is from the end. -/
theorem inOrder_eq_rotate (h : n ≤ xs.length) (hn : 0 < n) :
    inOrder n xs = (window n xs).rotate (n - xs.length % n) := by
  have hlen : (window n xs).length = n := by
    rw [window, List.length_drop]
    omega
  have hheld : ∀ j ∈ List.range n,
      held n xs j = ((window n xs).rotate (n - xs.length % n))[j]? := by
    intro j hj
    rw [List.mem_range] at hj
    have hr := Nat.mod_lt xs.length hn
    have hturn := Nat.mod_lt (j + (n - xs.length % n)) hn
    have hback := Nat.mod_lt (xs.length - 1 - j) hn
    have hback' := Nat.mod_le (xs.length - 1 - j) n
    rw [held, if_pos (by omega), List.getElem?_rotate (by omega), hlen, window, List.getElem?_drop]
    congr 1
    refine eq_of_mod_eq (n := n) ?_ (by omega) (by omega)
    -- both are `j` modulo `n`
    have hdiv := Nat.div_add_mod xs.length n
    rw [lastIndex_mod (by omega), Nat.add_mod_mod,
      show xs.length - n + (j + (n - xs.length % n)) = j + n * (xs.length / n) by omega,
      Nat.add_mul_mod_self_left]
  rw [inOrder, List.filterMap_congr hheld, filterMap_range,
    List.take_of_length_le (by rw [List.length_rotate, hlen])]

theorem length_inOrder (hn : 0 < n) (xs : List α) : (inOrder n xs).length = min xs.length n := by
  rcases Nat.le_total xs.length n with h | h
  · rw [inOrder_of_le h, Nat.min_eq_left h]
  · rw [inOrder_eq_rotate h hn, List.length_rotate, window, List.length_drop, Nat.min_eq_right h]
    omega

theorem window_of_le (h : xs.length ≤ n) : window n xs = xs := by
  rw [window, Nat.sub_eq_zero_of_le h, List.drop_zero]

theorem getLast?_window (hn : 0 < n) (xs : List α) : (window n xs).getLast? = xs.getLast? := by
  rw [window, List.getLast?_drop]
  split
  · next h =>
    obtain rfl : xs = [] := List.length_eq_zero_iff.1 (by omega)
    rfl
  · rfl

/-! ## Turns -/

theorem rotate_mul {l : List α} {k : ℕ} (h : l.rotate k = l) (m : ℕ) : l.rotate (k * m) = l := by
  induction m with
  | zero => simp
  | succ m ih => rw [Nat.mul_succ, ← List.rotate_rotate, ih, h]

/-- A list that a turn by a number prime to its length leaves as it is has one element only. -/
theorem eq_replicate_of_rotate {l : List α} {k : ℕ} (hk : Nat.Coprime k l.length)
    (h : l.rotate k = l) (hne : l ≠ []) : ∃ a, l = List.replicate l.length a := by
  have : Nonempty α := ⟨l.head hne⟩
  refine List.rotate_eq_self_iff_eq_replicate.1 fun m => ?_
  obtain ⟨c, -, hc⟩ := Nat.exists_mul_mod_eq_of_coprime m hk (List.length_pos_iff.2 hne).ne'
  rw [← List.rotate_mod, ← hc, List.rotate_mod]
  exact rotate_mul h c

/-- **When the slots are in the order of the items**: while they are not full, when the last slot
was the last one written, and when all the items in them are the same. -/
theorem inOrder_eq_window_iff (hn : n.Prime) (xs : List α) :
    inOrder n xs = window n xs ↔
      xs.length ≤ n ∨ n ∣ xs.length ∨ ∃ a, window n xs = List.replicate n a := by
  by_cases hle : xs.length ≤ n
  · refine iff_of_true ?_ (.inl hle)
    rw [inOrder_of_le hle, window_of_le hle]
  · have hlen : (window n xs).length = n := by
      rw [window, List.length_drop]
      omega
    rw [inOrder_eq_rotate (by omega) hn.pos, or_iff_right hle]
    by_cases hdvd : n ∣ xs.length
    · refine iff_of_true ?_ (.inl hdvd)
      have hturn := List.rotate_length (window n xs)
      rw [hlen] at hturn
      rw [Nat.mod_eq_zero_of_dvd hdvd, Nat.sub_zero, hturn]
    · rw [or_iff_right hdvd]
      constructor
      · intro hsame
        have hr := Nat.mod_lt xs.length hn.pos
        have hne : xs.length % n ≠ 0 := mt Nat.dvd_of_mod_eq_zero hdvd
        have hcop : Nat.Coprime (n - xs.length % n) (window n xs).length := by
          rw [hlen]
          exact (Nat.coprime_of_lt_prime (by omega) (by omega) hn).symm
        have hconst := eq_replicate_of_rotate hcop hsame fun hnil => by
          rw [hnil] at hlen
          exact hn.pos.ne hlen
        rwa [hlen] at hconst
      · rintro ⟨a, ha⟩
        rw [ha, List.rotate_replicate]

end Infra.Slots
