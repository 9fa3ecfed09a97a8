import Mathlib.Data.List.Basic

/-!
# Slices of a string

A slice is cut between two indices. `get` asks first whether it lies inside, `slice` and `index`
fault where it does not.

* `get_middle` — the slice between a front and a rest
* `slice_eq_ok`, `index_eq_ok` — inside the string nothing faults
-/

namespace Infra.Slice

variable {α : Type*}

/-- The slice from `start` up to `stop`, if it lies inside. -/
def get (xs : List α) (start stop : Nat) : Option (List α) :=
  if start ≤ stop ∧ stop ≤ xs.length then some ((xs.take stop).drop start) else none

theorem get_of_le {xs : List α} {start stop : Nat} (h : start ≤ stop) (hstop : stop ≤ xs.length) :
    get xs start stop = some ((xs.take stop).drop start) := if_pos ⟨h, hstop⟩

theorem get_of_lt {xs : List α} {start stop : Nat} (h : xs.length < stop) :
    get xs start stop = none := if_neg fun hin => Nat.not_le.mpr h hin.2

/-- What stands between a front and a rest. -/
theorem get_middle {front middle rest : List α} {start stop : Nat} (hstart : start = front.length)
    (hstop : stop = front.length + middle.length) :
    get (front ++ (middle ++ rest)) start stop = some middle := by
  subst hstart hstop
  rw [get_of_le (Nat.le_add_right _ _) (by simp), ← List.append_assoc,
    List.take_left' (List.length_append ..), List.drop_left]

/-- A slice that lies inside a string lies inside a longer one. -/
theorem get_append {xs ys : List α} {start stop : Nat} (h : get xs start stop = some ys)
    (extra : List α) : get (xs ++ extra) start stop = some ys := by
  unfold get at h ⊢
  split at h
  · next hin =>
    have hle : stop ≤ (xs ++ extra).length := by
      rw [List.length_append]
      omega
    rw [if_pos ⟨hin.1, hle⟩, List.take_append_of_le_length hin.2]
    exact h
  · cases h

/-! ## Faults -/

/-- What stops a read. -/
inductive Fault where
  | outOfRange
deriving DecidableEq, Repr

/-- The element at an index. -/
def index (xs : List α) (i : Nat) : Except Fault α :=
  if h : i < xs.length then .ok xs[i] else .error .outOfRange

/-- The slice from `start` up to `stop`. -/
def slice (xs : List α) (start stop : Nat) : Except Fault (List α) :=
  match get xs start stop with
  | some ys => .ok ys
  | none => .error .outOfRange

theorem index_eq_ok {xs : List α} {i : Nat} (h : i < xs.length) : index xs i = .ok xs[i] :=
  dif_pos h

theorem slice_eq_ok {xs : List α} {start stop : Nat} (h : start ≤ stop) (hstop : stop ≤ xs.length) :
    slice xs start stop = .ok ((xs.take stop).drop start) := by
  unfold slice
  rw [get_of_le h hstop]

end Infra.Slice
