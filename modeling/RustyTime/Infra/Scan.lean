import Mathlib.Data.List.Basic

/-!
# Reading numbered slots

Values are spread over numbered slots. A slot holds a value or none, or reading it fails; a reader
goes from a slot on until the first that holds none.

* `scan_eq_ok` — which lists a scan reads
* `scan_error` — a slot that fails among those read
* `scan_takeWhile` — slots filled from a list, as far as its values count
-/

namespace Infra.Scan

variable {ε α : Type*}

/-- The values from slot `i` on, of `left` slots at most. -/
def scan (slot : Nat → Except ε (Option α)) : (left i : Nat) → Except ε (List α)
  | 0, _ => .ok []
  | left + 1, i =>
    match slot i with
    | .error e => .error e
    | .ok none => .ok []
    | .ok (some x) =>
      match scan slot left (i + 1) with
      | .error e => .error e
      | .ok xs => .ok (x :: xs)

variable {slot slot' : Nat → Except ε (Option α)} {left i : Nat}

theorem scan_none (h : slot i = .ok none) : scan slot left i = .ok [] := by
  cases left with
  | zero => rfl
  | succ left => rw [scan, h]

theorem scan_some {x : α} (h : slot i = .ok (some x)) {xs : List α}
    (hrest : scan slot left (i + 1) = .ok xs) : scan slot (left + 1) i = .ok (x :: xs) := by
  rw [scan, h]
  dsimp only
  rw [hrest]

/-- Only the slots read matter. -/
theorem scan_congr (h : ∀ j < left, slot (i + j) = slot' (i + j)) :
    scan slot left i = scan slot' left i := by
  induction left generalizing i with
  | zero => rfl
  | succ left ih =>
    have hrest : scan slot left (i + 1) = scan slot' left (i + 1) := by
      refine ih fun j hj => ?_
      rw [Nat.add_assoc, Nat.add_comm 1 j]
      exact h (j + 1) (by omega)
    have hfirst := h 0 (Nat.succ_pos left)
    rw [Nat.add_zero] at hfirst
    rw [scan, scan, hfirst, hrest]

/-- The slots from `i` on, `left` of them at most, hold `xs` and nothing after it. -/
structure Holds (slot : Nat → Except ε (Option α)) (left i : Nat) (xs : List α) : Prop where
  fits : xs.length ≤ left
  values : ∀ j (h : j < xs.length), slot (i + j) = .ok (some xs[j])
  ends : xs.length < left → slot (i + xs.length) = .ok none

theorem Holds.cons {x : α} {xs : List α} (hx : slot i = .ok (some x))
    (h : Holds slot left (i + 1) xs) : Holds slot (left + 1) i (x :: xs) where
  fits := Nat.succ_le_succ h.fits
  values j hj := by
    cases j with
    | zero => exact hx
    | succ j =>
      rw [← Nat.add_assoc, Nat.add_right_comm]
      exact h.values j (Nat.lt_of_succ_lt_succ hj)
  ends hlt := by
    rw [List.length_cons, ← Nat.add_assoc, Nat.add_right_comm]
    exact h.ends (Nat.lt_of_succ_lt_succ hlt)

theorem Holds.head {x : α} {xs : List α} (h : Holds slot (left + 1) i (x :: xs)) :
    slot i = .ok (some x) := h.values 0 (Nat.succ_pos _)

theorem Holds.tail {x : α} {xs : List α} (h : Holds slot (left + 1) i (x :: xs)) :
    Holds slot left (i + 1) xs where
  fits := Nat.le_of_succ_le_succ h.fits
  values j hj := by
    have hvalue := h.values (j + 1) (Nat.succ_lt_succ hj)
    rwa [← Nat.add_assoc, Nat.add_right_comm] at hvalue
  ends hlt := by
    have hend := h.ends (Nat.succ_lt_succ hlt)
    rwa [List.length_cons, ← Nat.add_assoc, Nat.add_right_comm] at hend

theorem scan_of_holds {xs : List α} (h : Holds slot left i xs) : scan slot left i = .ok xs := by
  induction xs generalizing left i with
  | nil =>
    rcases Nat.eq_zero_or_pos left with rfl | hpos
    · rfl
    · exact scan_none (h.ends hpos)
  | cons x xs ih =>
    cases left with
    | zero => exact absurd h.fits (Nat.not_succ_le_zero _)
    | succ left => exact scan_some h.head (ih h.tail)

theorem holds_of_scan {xs : List α} (h : scan slot left i = .ok xs) : Holds slot left i xs := by
  induction left generalizing i xs with
  | zero =>
    cases h
    exact ⟨Nat.le_refl _, fun j hj => absurd hj (Nat.not_lt_zero j),
      fun hlt => absurd hlt (Nat.lt_irrefl _)⟩
  | succ left ih =>
    rw [scan] at h
    split at h
    · cases h
    · next hnone =>
      cases h
      exact ⟨Nat.zero_le _, fun j hj => absurd hj (Nat.not_lt_zero j), fun _ => hnone⟩
    · next x hx =>
      split at h
      · cases h
      · next hrest =>
        cases h
        exact .cons hx (ih hrest)

/-- **Which lists a scan reads.** -/
theorem scan_eq_ok {xs : List α} : scan slot left i = .ok xs ↔ Holds slot left i xs :=
  ⟨holds_of_scan, scan_of_holds⟩

/-- A slot that fails, behind slots that hold values, fails the scan. -/
theorem scan_error {n : Nat} {e : ε} (hn : n < left)
    (hvalues : ∀ j < n, ∃ x, slot (i + j) = .ok (some x)) (hfail : slot (i + n) = .error e) :
    scan slot left i = .error e := by
  induction n generalizing left i with
  | zero =>
    obtain ⟨left, rfl⟩ : ∃ k, left = k + 1 := ⟨left - 1, by omega⟩
    rw [Nat.add_zero] at hfail
    rw [scan, hfail]
  | succ n ih =>
    obtain ⟨left, rfl⟩ : ∃ k, left = k + 1 := ⟨left - 1, by omega⟩
    obtain ⟨x, hx⟩ := hvalues 0 (Nat.succ_pos n)
    rw [Nat.add_zero] at hx
    have hrest : scan slot left (i + 1) = .error e := by
      refine ih (Nat.lt_of_succ_lt_succ hn) (fun j hj => ?_) ?_
      · obtain ⟨y, hy⟩ := hvalues (j + 1) (Nat.succ_lt_succ hj)
        exact ⟨y, by rwa [← Nat.add_assoc, Nat.add_right_comm] at hy⟩
      · rwa [← Nat.add_assoc, Nat.add_right_comm] at hfail
    rw [scan, hx]
    dsimp only
    rw [hrest]

/-- Where no slot fails the scan does not. -/
theorem scan_ok (h : ∀ j, ∃ value, slot j = .ok value) : ∃ xs, scan slot left i = .ok xs := by
  induction left generalizing i with
  | zero => exact ⟨[], rfl⟩
  | succ left ih =>
    obtain ⟨value, hvalue⟩ := h i
    cases value with
    | none => exact ⟨[], scan_none hvalue⟩
    | some x =>
      obtain ⟨xs, hxs⟩ := ih (i := i + 1)
      exact ⟨x :: xs, scan_some hvalue hxs⟩

/-- Slots filled from a list whose values may be none: the scan reads as far as they are not. What
is behind them matters only if none is. -/
theorem scan_takeWhile {xs : List α} {live : α → Bool} (hfits : xs.length ≤ left)
    (hvalues : ∀ j (h : j < xs.length),
      slot (i + j) = .ok (if live xs[j] then some xs[j] else none))
    (hend : (∀ x ∈ xs, live x = true) → xs.length < left → slot (i + xs.length) = .ok none) :
    scan slot left i = .ok (xs.takeWhile live) := by
  induction xs generalizing left i with
  | nil =>
    have hnil : ∀ x ∈ ([] : List α), live x = true := fun x hx => absurd hx List.not_mem_nil
    exact scan_of_holds ⟨hfits, fun j hj => absurd hj (Nat.not_lt_zero j), hend hnil⟩
  | cons x xs ih =>
    obtain ⟨left, rfl⟩ : ∃ k, left = k + 1 := ⟨left - 1, by simp at hfits; omega⟩
    have hx := hvalues 0 (Nat.succ_pos _)
    rw [Nat.add_zero, List.getElem_cons_zero] at hx
    by_cases hlive : live x = true
    · rw [if_pos hlive] at hx
      rw [List.takeWhile_cons_of_pos hlive]
      refine scan_some hx (ih (Nat.le_of_succ_le_succ hfits) (fun j hj => ?_) fun hall hlt => ?_)
      · have hvalue := hvalues (j + 1) (Nat.succ_lt_succ hj)
        rwa [← Nat.add_assoc, Nat.add_right_comm] at hvalue
      · have hstop := hend (List.forall_mem_cons.mpr ⟨hlive, hall⟩) (Nat.succ_lt_succ hlt)
        rwa [List.length_cons, ← Nat.add_assoc, Nat.add_right_comm] at hstop
    · rw [if_neg hlive] at hx
      rw [List.takeWhile_cons_of_neg hlive]
      exact scan_none hx

end Infra.Scan
